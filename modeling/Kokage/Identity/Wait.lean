/-
  Kokage.Identity.Wait — `SupervisorHandle::wait` on a stable identity
  (`supervisor/handle.rs`: `wait`, `wait_target`, `StableBindingGuard::drop`, `terminal`;
  `supervisor/owner.rs`: `spawn`, `run_as_child`).

  Every incarnation has a completion channel of its own, a watch that its runtime task and
  the holder of its join handle write to. A root hands the join handle to the first waiter
  and everyone else to the channel. Waiters of a nested identity follow the binding until
  it is terminal, and then read the channel of the incarnation that was bound last.

  - `wait_agreed`: in every run all calls that resolve return one result; on a nested
    identity they resolve only once it is terminal, with the completion of the
    incarnation of the highest binding epoch.

  A task that panics or is aborted does so before it has sent its result: the send, the
  judgment of a root and the return are one poll.
-/

import Kokage.Identity.Channels

namespace Kokage.Identity

open Kokage.Lib Kokage.Supervisor

/-! ## What a binding keeps for waiters -/

namespace StableBindingState

variable {b : StableBindingState} {epoch doneRx : Nat}

/-- The completion channel a waiter will be given if the identity becomes terminal now. -/
def heir (b : StableBindingState) : Option Nat := (b.current.map (·.doneRx)).or b.lastDoneRx

@[simp] theorem heir_allocate : b.allocate.heir = b.heir := rfl

@[simp] theorem heir_commit : (b.commit epoch doneRx).heir = some doneRx := rfl

@[simp] theorem heir_makeTerminal : b.makeTerminal.heir = b.heir := rfl

@[simp] theorem heir_release : (b.release epoch).heir = b.heir := by
  unfold release
  split
  · rename_i h
    unfold names at h
    cases hc : b.current with
    | none => simp [hc] at h
    | some c => simp [heir, hc]
  · rfl

@[simp] theorem terminal_release : (b.release epoch).terminal = b.terminal := by
  unfold release
  split <;> rfl

theorem current_release (h : b.current = none) : (b.release epoch).current = none := by
  unfold release
  split
  · rfl
  · exact h

end StableBindingState

namespace Wait

abbrev WaitResult := Except SupervisorError Unit

def terminalError : WaitResult := .error (.internal "supervisor identity is terminal and cannot run again")

def closedError : WaitResult := .error (.internal "supervisor completion channel closed")

/-! ## Incarnations -/

inductive TaskStage where
  | running
  /-- The result is in the channel; the task is about to return it. -/
  | published (result : WaitResult)
  | completed (result : WaitResult)
  /-- Panicked or aborted, with the text of the join error. -/
  | died (error : String)

def TaskStage.settled : TaskStage → Bool
  | .completed _ | .died _ => true
  | _ => false

inductive WrapperStage where
  /-- A root has no wrapper. -/
  | absent
  | joining (abortRequested : Bool)
  | joined (result : WaitResult)
  | sent
  | dropped

structure Run where
  task : TaskStage
  wrapper : WrapperStage
  /-- The completion channel. -/
  value : Option WaitResult
  /-- The sender that is not the task's: the wrapper's, or the one beside a root's join handle. -/
  doneTx : Bool

/-- The channel has no sender left. -/
def Run.closed (r : Run) : Bool := r.task.settled && !r.doneTx

/-- What a receiver of the channel gets. -/
def Run.completion (r : Run) : Option WaitResult :=
  match r.value with
  | some result => some result
  | none => if r.closed then some closedError else none

/-- The result of `run_as_child`'s select loop. -/
def joinResult (name : String) (abortRequested : Bool) : TaskStage → Option WaitResult
  | .completed result => some result
  | .died error =>
    if abortRequested then some (.error (.shutdownTimedOut name))
    else some (.error (.internal ("nested supervisor task failed to join: " ++ error)))
  | _ => none

/-- The result of a root's join handle. -/
def rootResult : TaskStage → Option WaitResult
  | .completed result => some result
  | .died error => some (.error (.internal ("supervisor task failed to join: " ++ error)))
  | _ => none

/-! ## Waiters -/

inductive RootExtraSlot where
  | notRoot
  | pending
  | ready
  deriving DecidableEq, Repr

/-- Where a call of `wait` is; `seen` is the binding revision it saw last. -/
inductive Waiter where
  | looping (seen : Nat)
  | rootReady
  | taking
  | classifying (seen : Nat)
  | parked (seen : Nat)
  /-- It took the join handle. -/
  | joining
  | receiving (doneRx : Nat)
  | resolved (result : WaitResult)
  | cancelled

structure State where
  name : String
  binding : StableBindingState
  revision : Nat
  root : RootExtraSlot
  /-- The join handle is still there to take. -/
  joinState : Bool
  /-- The incarnation at an index has that binding epoch and completion channel. -/
  runs : List Run
  waiters : List Waiter

inductive Action where
  | markRoot
  | install
  | bind
  | dropGuard (e : Nat)
  | terminal
  /-- `terminal` announces the binding transition after it unlocked the binding. -/
  | notify
  | publish (e : Nat) (result : WaitResult)
  | complete (e : Nat)
  | die (e : Nat) (error : String)
  | requestAbort (e : Nat)
  | join (e : Nat)
  | send (e : Nat)
  | dropWrapper (e : Nat)
  | dropDoneTx (e : Nat)
  | call
  | look (w : Nat)
  | checkRoot (w : Nat)
  | takeJoin (w : Nat)
  | classify (w : Nat)
  | wake (w : Nat)
  | joinRoot (w : Nat)
  | receive (w : Nat)
  | cancel (w : Nat)

namespace State

def new (name : String) : State := ⟨name, .new, 0, .notRoot, false, [], []⟩

def setRun (s : State) (e : Nat) (r : Run) : State := { s with runs := s.runs.set e r }

def setWaiter (s : State) (w : Nat) (x : Waiter) : State := { s with waiters := s.waiters.set w x }

/-- `bind_prepared` of a fresh incarnation. -/
def bind (s : State) (wrapper : WrapperStage) : State :=
  { s with
    binding := s.binding.allocate.commit s.runs.length s.runs.length
    revision := s.revision + 1
    runs := s.runs ++ [⟨.running, wrapper, none, true⟩] }

/-- A guard goes with the wrapper, or with the task of a root. -/
def guardGone (r : Run) : Bool :=
  match r.wrapper with
  | .absent => r.task.settled
  | .sent | .dropped => true
  | _ => false

/-- `wait_target` and the branch of `wait` on it. -/
def classify (s : State) (w seen : Nat) : State :=
  if s.binding.terminal then
    match s.binding.lastDoneRx with
    | some doneRx => s.setWaiter w (.receiving doneRx)
    | none => s.setWaiter w (.resolved terminalError)
  -- Bound, never bound and between incarnations alike wait for the next transition.
  else s.setWaiter w (.parked seen)

def step (s : State) : Action → Option State
  | .markRoot =>
    if s.root = .notRoot ∧ s.binding.boundOnce = false ∧ s.binding.terminal = false ∧ s.runs = [] then
      some { s with root := .pending }
    else none
  | .install =>
    if s.root = .pending ∧ s.runs ≠ [] then
      some { s with root := .ready, joinState := true, revision := s.revision + 1 }
    else none
  | .bind =>
    match s.root with
    -- A terminal identity refuses and stays as it is.
    | .notRoot => if s.binding.terminal then some s else some (s.bind (.joining false))
    | .pending => if s.binding.terminal = false ∧ s.runs = [] then some (s.bind .absent) else none
    | .ready => none
  | .dropGuard e =>
    match s.runs[e]? with
    | some r =>
      if guardGone r then
        some { s with
          binding := s.binding.release e
          revision := if s.binding.names e then s.revision + 1 else s.revision }
      else none
    | none => none
  | .terminal => some { s with binding := s.binding.makeTerminal }
  | .notify => if s.binding.terminal then some { s with revision := s.revision + 1 } else none
  | .publish e result =>
    match s.runs[e]? with
    | some r => match r.task with
      | .running => some (s.setRun e { r with task := .published result, value := some result })
      | _ => none
    | none => none
  | .complete e =>
    match s.runs[e]? with
    | some r => match r.task with
      | .published result => some (s.setRun e { r with task := .completed result })
      | _ => none
    | none => none
  | .die e error =>
    match s.runs[e]? with
    | some r => match r.task with
      | .running => some (s.setRun e { r with task := .died error })
      | _ => none
    | none => none
  | .requestAbort e =>
    match s.runs[e]? with
    | some r => match r.wrapper with
      | .joining _ => some (s.setRun e { r with wrapper := .joining true })
      | _ => none
    | none => none
  | .join e =>
    match s.runs[e]? with
    | some r => match r.wrapper with
      | .joining ab => (joinResult s.name ab r.task).map fun result => s.setRun e { r with wrapper := .joined result }
      | _ => none
    | none => none
  | .send e =>
    match s.runs[e]? with
    | some r => match r.wrapper with
      | .joined result => some (s.setRun e { r with wrapper := .sent, value := some result })
      | _ => none
    | none => none
  | .dropWrapper e =>
    match s.runs[e]? with
    | some r => match r.wrapper with
      | .joining _ => some (s.setRun e { r with wrapper := .dropped })
      | _ => none
    | none => none
  | .dropDoneTx e =>
    match s.runs[e]? with
    | some r => match r.wrapper with
      | .sent | .dropped => some (s.setRun e { r with doneTx := false })
      | _ => none
    | none => none
  | .call => some { s with waiters := s.waiters ++ [.looping s.revision] }
  | .look w =>
    match s.waiters[w]? with
    | some (.looping seen) => match s.root with
      | .ready => some (s.setWaiter w .rootReady)
      | .pending => some (s.setWaiter w (.parked seen))
      | .notRoot => some (s.setWaiter w (.classifying seen))
    | _ => none
  | .checkRoot w =>
    match s.waiters[w]?, s.runs[0]? with
    | some .rootReady, some r => match r.value with
      | some result => some (s.setWaiter w (.resolved result))
      | none => some (s.setWaiter w .taking)
    | _, _ => none
  | .takeJoin w =>
    match s.waiters[w]? with
    | some .taking =>
      if s.joinState then some { s.setWaiter w .joining with joinState := false }
      else some (s.setWaiter w (.receiving 0))
    | _ => none
  | .classify w =>
    match s.waiters[w]? with
    | some (.classifying seen) => some (s.classify w seen)
    | _ => none
  | .wake w =>
    match s.waiters[w]? with
    | some (.parked seen) => if s.revision = seen then none else some (s.setWaiter w (.looping s.revision))
    | _ => none
  | .joinRoot w =>
    match s.waiters[w]?, s.runs[0]? with
    | some .joining, some r =>
      (rootResult r.task).map fun result =>
        (s.setRun 0 { r with value := some result, doneTx := false }).setWaiter w (.resolved result)
    | _, _ => none
  | .receive w =>
    match s.waiters[w]? with
    | some (.receiving doneRx) => match s.runs[doneRx]? with
      | some r => r.completion.map fun result => s.setWaiter w (.resolved result)
      | none => none
    | _ => none
  | .cancel w =>
    match s.waiters[w]? with
    | some (.resolved _) | some .cancelled | none => none
    | some .joining =>
      -- The join handle is dropped, and the sender beside it.
      match s.runs[0]? with
      | some r => some ((s.setRun 0 { r with doneTx := false }).setWaiter w .cancelled)
      | none => none
    | some _ => some (s.setWaiter w .cancelled)

end State

/-! ## One completion per channel -/

/-- Nobody but the task has written to the channel yet, and somebody still may. -/
def Run.Unsent (r : Run) : Prop := r.doneTx = true ∧ ∀ e, r.task = .died e → r.value = none

structure Run.Ok (r : Run) : Prop where
  running : r.task = .running → r.value = none
  published : ∀ v, r.task = .published v → r.value = some v
  completed : ∀ v, r.task = .completed v → r.value = some v
  joined : ∀ v, r.wrapper = .joined v → r.task = .completed v ∨ ∃ e, r.task = .died e
  joining : ∀ ab, r.wrapper = .joining ab → r.Unsent
  unsent : ∀ v, r.wrapper = .joined v → r.Unsent

/-- What a channel completes with, it completes with for good. -/
def Run.Later (r r' : Run) : Prop := ∀ v, r.completion = some v → r'.completion = some v

variable {r r' : Run} {v : WaitResult}

theorem Run.completion_of_value (h : r.value = some v) : r.completion = some v := by
  unfold completion
  rw [h]

theorem Run.completion_none (hv : r.value = none) (hc : r.closed = false) : r.completion = none := by
  unfold completion
  rw [hv, hc]
  rfl

theorem Run.Unsent.completion (hu : r.Unsent) (hv : r.value = none) : r.completion = none :=
  completion_none hv (by simp [closed, hu.1])

theorem Run.Ok.running_none (hok : r.Ok) (h : r.task = .running) : r.completion = none :=
  completion_none (hok.running h) (by simp [closed, h, TaskStage.settled])

theorem Run.Ok.later_send (hok : r.Ok) (hu : r.Unsent) (ht : r.task = .completed v ∨ ∃ e, r.task = .died e)
    (hv : r'.value = some v) : r.Later r' := by
  intro x hx
  rcases ht with ht | ⟨e, ht⟩
  · rw [completion_of_value (hok.completed v ht)] at hx
    cases hx
    exact completion_of_value hv
  · rw [hu.completion (hu.2 e ht)] at hx
    cases hx

theorem Run.later_closing (hv : r'.value = r.value) (ht : r'.task = r.task) (hd : r.doneTx = false → r'.doneTx = false) :
    r.Later r' := by
  intro x hx
  unfold completion at hx ⊢
  rw [hv]
  cases h : r.value with
  | some y => simpa [h] using hx
  | none =>
    simp only [h] at hx ⊢
    split at hx
    case isTrue hc =>
      simp only [closed, Bool.and_eq_true, Bool.not_eq_true'] at hc
      simp only [closed, ht, hc.1, hd hc.2]
      exact hx
    case isFalse => cases hx

namespace State

variable {s s' : State} {a : Action} {e w : Nat} {x y : Waiter}

/-- The incarnation of the highest binding epoch. -/
def latest (s : State) : Option Nat := if s.runs = [] then none else some (s.runs.length - 1)

/-- What a call that resolves now returns. -/
def answer (s : State) : Option WaitResult :=
  match s.latest with
  | none => if s.binding.terminal then some terminalError else none
  | some e => s.runs[e]?.bind Run.completion

/-- The sender beside a root's join handle is still held by someone. -/
def Held (s : State) : Prop := s.root = .pending ∨ s.joinState = true ∨ ∃ w : Nat, s.waiters[w]? = some .joining

/-- What a waiter's place says about the identity. -/
def Fits (s : State) : Waiter → Prop
  | .rootReady | .taking | .joining => s.root = .ready
  | .receiving rx => s.latest = some rx ∧ (s.binding.terminal = true ∨ s.root ≠ .notRoot)
  | .resolved v => s.answer = some v ∧ (s.root = .notRoot → s.binding.terminal = true)
  | _ => True

structure Inv (s : State) : Prop where
  heir : s.binding.heir = s.latest
  unbound : s.binding.terminal = true → s.binding.current = none
  runs : ∀ (e : Nat) (r : Run), s.runs[e]? = some r → r.Ok
  wrapper : ∀ (e : Nat) (r : Run), s.runs[e]? = some r → (r.wrapper = .absent ↔ s.root ≠ .notRoot)
  single : s.root ≠ .notRoot → s.runs.length ≤ 1
  ready : s.root = .ready → s.runs ≠ []
  slot : s.joinState = true → s.root = .ready ∧ ∀ w : Nat, s.waiters[w]? ≠ some .joining
  joiner : ∀ w w' : Nat, s.waiters[w]? = some .joining → s.waiters[w']? = some .joining → w = w'
  held : s.Held → ∀ r, s.runs[0]? = some r → r.Unsent
  waiters : ∀ (w : Nat) (x : Waiter), s.waiters[w]? = some x → s.Fits x

theorem new_inv (name : String) : (new name).Inv := by
  constructor <;> simp [new, StableBindingState.new, StableBindingState.heir, latest]

theorem set_run (h : s.runs[e]? = some r) {j : Nat} {y : Run} : (s.runs.set e r')[j]? = some y ↔
    (j = e ∧ y = r') ∨ (j ≠ e ∧ s.runs[j]? = some y) := by
  have hi : e < s.runs.length := (List.getElem?_eq_some_iff.mp h).1
  rw [List.getElem?_set]
  by_cases hj : e = j
  · subst hj
    simp [hi, eq_comm]
  · simp [hj, Ne.symm hj]

theorem set_waiter (h : s.waiters[w]? = some x) {j : Nat} {z : Waiter} : (s.waiters.set w y)[j]? = some z ↔
    (j = w ∧ z = y) ∨ (j ≠ w ∧ s.waiters[j]? = some z) := by
  have hi : w < s.waiters.length := (List.getElem?_eq_some_iff.mp h).1
  rw [List.getElem?_set]
  by_cases hj : w = j
  · subst hj
    simp [hi, eq_comm]
  · simp [hj, Ne.symm hj]

theorem latest_setRun : (s.setRun e r').latest = s.latest := by
  simp [latest, setRun]

theorem answer_setRun (h : s.runs[e]? = some r) (hl : r.Later r') (ha : s.answer = some v) :
    (s.setRun e r').answer = some v := by
  unfold answer at ha ⊢
  rw [latest_setRun]
  cases hn : s.latest with
  | none =>
    rw [hn] at ha
    exact ha
  | some j =>
    simp only [hn, setRun] at ha ⊢
    obtain ⟨y, hy, hc⟩ := Option.bind_eq_some_iff.mp ha
    by_cases hj : j = e
    · subst hj
      rw [h] at hy
      cases hy
      exact Option.bind_eq_some_iff.mpr ⟨r', (set_run h).mpr (.inl ⟨rfl, rfl⟩), hl v hc⟩
    · exact Option.bind_eq_some_iff.mpr ⟨y, (set_run h).mpr (.inr ⟨hj, hy⟩), hc⟩

theorem Inv.setRun (hi : s.Inv) (h : s.runs[e]? = some r) (hok : r'.Ok) (hl : r.Later r')
    (hw : r'.wrapper = .absent ↔ r.wrapper = .absent) (hheld : s.Held → e = 0 → r'.Unsent) : (s.setRun e r').Inv :=
  { hi with
    heir := by rw [latest_setRun]; exact hi.heir
    runs := fun j y hy => by
      rcases (set_run h).mp hy with ⟨-, rfl⟩ | ⟨-, hy⟩
      · exact hok
      · exact hi.runs j y hy
    wrapper := fun j y hy => by
      rcases (set_run h).mp hy with ⟨-, rfl⟩ | ⟨-, hy⟩
      · exact hw.trans (hi.wrapper e r h)
      · exact hi.wrapper j y hy
    single := fun hr => by simpa [State.setRun] using hi.single hr
    ready := fun hr => by simpa [State.setRun] using hi.ready hr
    held := fun hh y hy => by
      rcases (set_run h).mp hy with ⟨rfl, rfl⟩ | ⟨-, hy⟩
      · exact hheld hh rfl
      · exact hi.held hh y hy
    waiters := fun j z hz => by
      have := hi.waiters j z hz
      cases z with
      | resolved v => exact ⟨answer_setRun h hl this.1, this.2⟩
      | receiving rx => exact ⟨latest_setRun.trans this.1, this.2⟩
      | _ => exact this }

theorem Inv.setWaiter (hi : s.Inv) (h : s.waiters[w]? = some x) (hf : s.Fits y) (hy : y ≠ .joining) :
    (s.setWaiter w y).Inv := by
  have hback : ∀ j : Nat, (s.waiters.set w y)[j]? = some .joining → s.waiters[j]? = some .joining := by
    intro j hj
    rcases (set_waiter h).mp hj with ⟨-, e⟩ | ⟨-, hj⟩
    · exact absurd e.symm hy
    · exact hj
  exact
    { hi with
      slot := fun hj => ⟨(hi.slot hj).1, fun j hw => (hi.slot hj).2 j (hback j hw)⟩
      joiner := fun j k hj hk => hi.joiner j k (hback j hj) (hback k hk)
      held := fun hh => hi.held (by
        rcases hh with hh | hh | ⟨j, hh⟩
        · exact .inl hh
        · exact .inr (.inl hh)
        · exact .inr (.inr ⟨j, hback j hh⟩))
      waiters := fun j z hz => by
        rcases (set_waiter h).mp hz with ⟨-, rfl⟩ | ⟨-, hz⟩
        · exact hf
        · exact hi.waiters j z hz }

/-! ## Steps -/

theorem Inv.rebind {b : StableBindingState} (hi : s.Inv) (n : Nat) (hh : b.heir = s.binding.heir)
    (hu : b.terminal = true → b.current = none) (ht : s.binding.terminal = true → b.terminal = true) :
    Inv { s with binding := b, revision := n } :=
  { hi with
    heir := hh.trans hi.heir
    unbound := hu
    waiters := fun j z hz => by
      have := hi.waiters j z hz
      cases z with
      | receiving rx => exact ⟨this.1, this.2.imp_left ht⟩
      | resolved v =>
        refine ⟨?_, fun hr => ht (this.2 hr)⟩
        have ha := this.1
        unfold answer at ha ⊢
        change (match s.latest with | none => _ | some e => _) = some v
        cases hn : s.latest with
        | none =>
          simp only [hn] at ha ⊢
          split at ha
          · rw [if_pos (ht ‹_›)]
            exact ha
          · cases ha
        | some e =>
          rw [hn] at ha
          exact ha
      | _ => exact this }

theorem markRoot_inv (hi : s.Inv) (hr : s.root = .notRoot) (hn : s.runs = []) : Inv { s with root := .pending } := by
  have hget : ∀ {e : Nat} {r : Run}, s.runs[e]? = some r → False := by simp [hn]
  exact
    { hi with
      wrapper := fun e r h => (hget h).elim
      single := fun _ => by simp [hn]
      ready := fun h => by cases h
      slot := fun h => absurd (hi.slot h).1 (by simp [hr])
      held := fun _ r h => (hget h).elim
      waiters := fun j z hz => by
        have := hi.waiters j z hz
        cases z with
        | receiving rx => exact ⟨this.1, .inr (by simp)⟩
        | resolved v => exact ⟨this.1, fun h => by cases h⟩
        | rootReady | taking | joining => simp [Fits, hr] at this
        | _ => exact this }

theorem install_inv (hi : s.Inv) (hr : s.root = .pending) (hn : s.runs ≠ []) (n : Nat) :
    Inv { s with root := .ready, joinState := true, revision := n } := by
  have hno : ∀ w : Nat, s.waiters[w]? ≠ some .joining := by
    intro w h
    have := hi.waiters w _ h
    simp [Fits, hr] at this
  exact
    { hi with
      wrapper := fun e r h => by simpa [hr] using hi.wrapper e r h
      single := fun _ => hi.single (by simp [hr])
      ready := fun _ => hn
      slot := fun _ => ⟨rfl, hno⟩
      held := fun _ => hi.held (.inl hr)
      waiters := fun j z hz => by
        have := hi.waiters j z hz
        cases z with
        | receiving rx => exact ⟨this.1, .inr (by simp)⟩
        | resolved v => exact ⟨this.1, fun h => by cases h⟩
        | rootReady | taking | joining => rfl
        | _ => exact this }

/-- Nobody who waits has been given a channel or an answer, so a bind takes nothing back. -/
theorem bind_inv (hi : s.Inv) (ht : s.binding.terminal = false) {wrapper : WrapperStage}
    (hroot : s.root ≠ .notRoot → s.runs = []) (hw : wrapper = .absent ↔ s.root ≠ .notRoot)
    (hj : ∀ v, wrapper ≠ .joined v) : (s.bind wrapper).Inv := by
  have hget : ∀ {e : Nat} {r : Run}, (s.runs ++ [⟨.running, wrapper, none, true⟩])[e]? = some r →
      s.runs[e]? = some r ∨ (e = s.runs.length ∧ r = ⟨.running, wrapper, none, true⟩) := by
    intro e r h
    rw [List.getElem?_append] at h
    split at h
    · exact .inl h
    · obtain ⟨he, rfl⟩ := List.getElem?_eq_some_iff.mp h
      simp only [List.length_singleton] at he
      refine .inr ⟨by omega, ?_⟩
      simp [show e - s.runs.length = 0 by omega]
  have hnew : Run.Ok ⟨.running, wrapper, none, true⟩ := by
    constructor
    · exact fun _ => rfl
    · intro v h
      cases h
    · intro v h
      cases h
    · exact fun v h => absurd h (hj v)
    · exact fun ab _ => ⟨rfl, fun e h => by cases h⟩
    · exact fun v h => absurd h (hj v)
  constructor
  case heir => simp [bind, latest]
  case unbound => simp [bind, StableBindingState.commit, StableBindingState.allocate, ht]
  case runs =>
    intro e r h
    rcases hget h with h | ⟨-, rfl⟩
    · exact hi.runs e r h
    · exact hnew
  case wrapper =>
    intro e r h
    rcases hget h with h | ⟨-, rfl⟩
    · exact hi.wrapper e r h
    · exact hw
  case single =>
    intro hr
    simp [bind, hroot hr]
  case ready => simp [bind]
  case slot => exact hi.slot
  case joiner => exact hi.joiner
  case held =>
    intro hh r h
    rcases hget h with h | ⟨-, rfl⟩
    · exact hi.held hh r h
    · exact ⟨rfl, fun e h => by cases h⟩
  case waiters =>
    intro j z hz
    have := hi.waiters j z hz
    cases z with
    | receiving rx =>
      rcases this.2 with h | h
      · simp [ht] at h
      · have := this.1
        simp [latest, hroot h] at this
    | resolved v =>
      by_cases hr : s.root = .notRoot
      · exact absurd (this.2 hr) (by simp [ht])
      · have := this.1
        simp [answer, latest, hroot hr, ht] at this
    | _ => exact this

theorem Inv.latest_ready (hi : s.Inv) (hr : s.root = .ready) : s.latest = some 0 := by
  have hne := hi.ready hr
  have hlen := hi.single (by simp [hr])
  have hpos := List.length_pos_iff.mpr hne
  rw [latest, if_neg hne]
  congr 1
  omega

theorem Inv.answer_ready (hi : s.Inv) (hr : s.root = .ready) (h : s.runs[0]? = some r) : s.answer = r.completion := by
  rw [answer, hi.latest_ready hr]
  simp [h]

theorem publish_inv (hi : s.Inv) (h : s.runs[e]? = some r) (ht : r.task = .running) (v : WaitResult) :
    (s.setRun e { r with task := .published v, value := some v }).Inv := by
  have hok := hi.runs e r h
  have hno : ∀ x, r.wrapper ≠ .joined x := by
    intro x hx
    rcases hok.joined x hx with h | ⟨_, h⟩ <;> simp [ht] at h
  refine hi.setRun h ⟨?_, ?_, ?_, ?_, ?_, ?_⟩ ?_ Iff.rfl ?_
  · simp
  · simp
  · simp
  · exact fun x hx => absurd hx (hno x)
  · exact fun ab hx => ⟨(hok.joining ab hx).1, by simp⟩
  · exact fun x hx => absurd hx (hno x)
  · intro x hx
    rw [hok.running_none ht] at hx
    cases hx
  · intro hh he
    subst he
    exact ⟨(hi.held hh r h).1, by simp⟩

theorem complete_inv (hi : s.Inv) (h : s.runs[e]? = some r) {v : WaitResult} (ht : r.task = .published v) :
    (s.setRun e { r with task := .completed v }).Inv := by
  have hok := hi.runs e r h
  have hv := hok.published v ht
  have hno : ∀ x, r.wrapper ≠ .joined x := by
    intro x hx
    rcases hok.joined x hx with h | ⟨_, h⟩ <;> simp [ht] at h
  refine hi.setRun h ⟨?_, ?_, ?_, ?_, ?_, ?_⟩ ?_ Iff.rfl ?_
  · simp
  · simp
  · intro x hx
    cases hx
    exact hv
  · exact fun x hx => absurd hx (hno x)
  · exact fun ab hx => ⟨(hok.joining ab hx).1, by simp⟩
  · exact fun x hx => absurd hx (hno x)
  · intro x hx
    rw [Run.completion_of_value hv] at hx
    cases hx
    exact Run.completion_of_value hv
  · intro hh he
    subst he
    exact ⟨(hi.held hh r h).1, by simp⟩

theorem die_inv (hi : s.Inv) (h : s.runs[e]? = some r) (ht : r.task = .running) (error : String) :
    (s.setRun e { r with task := .died error }).Inv := by
  have hok := hi.runs e r h
  have hv := hok.running ht
  have hno : ∀ x, r.wrapper ≠ .joined x := by
    intro x hx
    rcases hok.joined x hx with h | ⟨_, h⟩ <;> simp [ht] at h
  refine hi.setRun h ⟨?_, ?_, ?_, ?_, ?_, ?_⟩ ?_ Iff.rfl ?_
  · simp
  · simp
  · simp
  · exact fun x hx => absurd hx (hno x)
  · exact fun ab hx => ⟨(hok.joining ab hx).1, fun _ _ => hv⟩
  · exact fun x hx => absurd hx (hno x)
  · intro x hx
    rw [hok.running_none ht] at hx
    cases hx
  · intro hh he
    subst he
    exact ⟨(hi.held hh r h).1, fun _ _ => hv⟩

theorem wrapper_inv (hi : s.Inv) (h : s.runs[e]? = some r) {ab : Bool} (hw : r.wrapper = .joining ab)
    {wrapper : WrapperStage} (ha : wrapper ≠ .absent)
    (hj : ∀ v, wrapper = .joined v → r.task = .completed v ∨ ∃ e, r.task = .died e) :
    (s.setRun e { r with wrapper := wrapper }).Inv := by
  have hok := hi.runs e r h
  have hu := hok.joining ab hw
  refine hi.setRun h ⟨hok.running, hok.published, hok.completed, hj, fun _ _ => hu, fun _ _ => hu⟩
    (Run.later_closing rfl rfl id) ?_ ?_
  · simp [ha, hw]
  · exact fun _ _ => hu

theorem joinResult_task {name : String} {ab : Bool} {t : TaskStage} {v : WaitResult} (h : joinResult name ab t = some v) :
    t = .completed v ∨ ∃ e, t = .died e := by
  cases t with
  | completed x =>
    cases h
    exact .inl rfl
  | died e => exact .inr ⟨e, rfl⟩
  | _ => cases h

theorem rootResult_task {t : TaskStage} {v : WaitResult} (h : rootResult t = some v) :
    t = .completed v ∨ ∃ e, t = .died e := by
  cases t with
  | completed x =>
    cases h
    exact .inl rfl
  | died e => exact .inr ⟨e, rfl⟩
  | _ => cases h

/-- A write that repeats the task's own, or stands in for a task that died. -/
theorem Run.ok_send {wrapper : WrapperStage} {tx : Bool}
    (ht : r.task = .completed v ∨ ∃ e, r.task = .died e) (hw : ∀ ab, wrapper ≠ .joining ab)
    (hj : ∀ x, wrapper ≠ .joined x) : Run.Ok ⟨r.task, wrapper, some v, tx⟩ := by
  constructor
  · intro (h : r.task = .running)
    rcases ht with ht | ⟨_, ht⟩ <;> simp [h] at ht
  · intro x (h : r.task = .published x)
    rcases ht with ht | ⟨_, ht⟩ <;> simp [h] at ht
  · intro x (h : r.task = .completed x)
    rcases ht with ht | ⟨_, ht⟩
    · rw [h] at ht
      cases ht
      rfl
    · simp [h] at ht
  · exact fun x h => absurd h (hj x)
  · exact fun ab h => absurd h (hw ab)
  · exact fun x h => absurd h (hj x)

theorem Inv.not_held (hi : s.Inv) (hr : s.root = .notRoot) : ¬s.Held := by
  intro hh
  rcases hh with hh | hh | ⟨w, hh⟩
  · simp [hr] at hh
  · exact absurd (hi.slot hh).1 (by simp [hr])
  · have := hi.waiters w _ hh
    simp [Fits, hr] at this

theorem Inv.nested (hi : s.Inv) (h : s.runs[e]? = some r) (hw : r.wrapper ≠ .absent) : s.root = .notRoot := by
  by_contra hr
  exact hw ((hi.wrapper e r h).mpr hr)

theorem send_inv (hi : s.Inv) (h : s.runs[e]? = some r) (hw : r.wrapper = .joined v) :
    (s.setRun e { r with wrapper := .sent, value := some v }).Inv := by
  have hok := hi.runs e r h
  have ht := hok.joined v hw
  have hnot := hi.nested h (by simp [hw])
  refine hi.setRun h (Run.ok_send ht (by simp) (by simp)) (hok.later_send (hok.unsent v hw) ht rfl) ?_ ?_
  · simp [hw]
  · exact fun hh => (hi.not_held hnot hh).elim

theorem dropDoneTx_inv (hi : s.Inv) (h : s.runs[e]? = some r) (hj : ∀ ab, r.wrapper ≠ .joining ab)
    (hj' : ∀ v, r.wrapper ≠ .joined v) (hh : ¬s.Held) : (s.setRun e { r with doneTx := false }).Inv := by
  have hok := hi.runs e r h
  refine hi.setRun h ⟨hok.running, hok.published, hok.completed, hok.joined, ?_, ?_⟩
    (Run.later_closing rfl rfl fun _ => rfl) Iff.rfl (fun h => (hh h).elim)
  · exact fun ab h => absurd h (hj ab)
  · exact fun v h => absurd h (hj' v)

theorem takeJoin_inv (hi : s.Inv) (h : s.waiters[w]? = some x) (hj : s.joinState = true) :
    Inv { s.setWaiter w .joining with joinState := false } := by
  obtain ⟨hr, hno⟩ := hi.slot hj
  have honly : ∀ {j : Nat}, (s.waiters.set w .joining)[j]? = some .joining → j = w := by
    intro j h'
    rcases (set_waiter h).mp h' with ⟨rfl, -⟩ | ⟨-, h'⟩
    · rfl
    · exact absurd h' (hno j)
  exact
    { hi with
      slot := fun h => by cases h
      joiner := fun j k hj hk => (honly hj).trans (honly hk).symm
      held := fun _ => hi.held (.inr (.inl hj))
      waiters := fun j z hz => by
        rcases (set_waiter h).mp hz with ⟨-, rfl⟩ | ⟨-, hz⟩
        · exact hr
        · exact hi.waiters j z hz }

/-- The first caller gives up the join handle, by returning or by being cancelled. -/
theorem Inv.give_up (hi : s.Inv) (h : s.waiters[w]? = some .joining) :
    (s.setWaiter w .cancelled).Inv ∧ ¬(s.setWaiter w .cancelled).Held := by
  refine ⟨hi.setWaiter h trivial (by simp), ?_⟩
  have hr : s.root = .ready := hi.waiters w _ h
  intro hh
  rcases hh with hh | hh | ⟨j, hh⟩
  · rw [show s.root = .pending from hh] at hr
    cases hr
  · exact (hi.slot hh).2 w h
  · rcases (set_waiter h).mp hh with ⟨-, hh⟩ | ⟨hne, hh⟩
    · cases hh
    · exact hne (hi.joiner j w hh h)

theorem joinRoot_inv (hi : s.Inv) (hw : s.waiters[w]? = some .joining) (h : s.runs[0]? = some r)
    (hres : rootResult r.task = some v) :
    ((s.setRun 0 { r with value := some v, doneTx := false }).setWaiter w (.resolved v)).Inv := by
  have hr : s.root = .ready := hi.waiters w _ hw
  have hu := hi.held (.inr (.inr ⟨w, hw⟩)) r h
  have hok := hi.runs 0 r h
  have ht := rootResult_task hres
  have habs : r.wrapper = .absent := (hi.wrapper 0 r h).mpr (by simp [hr])
  obtain ⟨hi', hno⟩ := hi.give_up hw
  have hsent : ((s.setWaiter w .cancelled).setRun 0 { r with value := some v, doneTx := false }).Inv := by
    refine hi'.setRun h (Run.ok_send ht (by simp [habs]) (by simp [habs])) (hok.later_send hu ht rfl) Iff.rfl ?_
    exact fun hh => (hno hh).elim
  have hlast : ((s.setRun 0 { r with value := some v, doneTx := false }).setWaiter w (.resolved v)) =
      ((s.setWaiter w .cancelled).setRun 0 { r with value := some v, doneTx := false }).setWaiter w (.resolved v) := by
    simp only [State.setRun, setWaiter, List.set_set]
  have hget : (s.waiters.set w .cancelled)[w]? = some .cancelled := (set_waiter hw).mpr (.inl ⟨rfl, rfl⟩)
  rw [hlast]
  refine hsent.setWaiter hget ⟨?_, fun hn => ?_⟩ (by simp)
  · rw [hsent.answer_ready hr ((set_run h).mpr (.inl ⟨rfl, rfl⟩))]
    rfl
  · simp [setRun, setWaiter, hr] at hn

theorem classify_inv (hi : s.Inv) (h : s.waiters[w]? = some x) (seen : Nat) : (s.classify w seen).Inv := by
  unfold classify
  split
  case isFalse => exact hi.setWaiter h trivial (by simp)
  case isTrue ht =>
  have hlast : s.binding.lastDoneRx = s.latest := by
    rw [← hi.heir, StableBindingState.heir, hi.unbound ht]
    rfl
  rw [hlast]
  cases hn : s.latest with
  | some rx => exact hi.setWaiter h ⟨hn, .inl ht⟩ (by simp)
  | none =>
    refine hi.setWaiter h ⟨?_, fun _ => ht⟩ (by simp)
    simp [answer, hn, ht]

theorem call_inv (hi : s.Inv) : Inv { s with waiters := s.waiters ++ [.looping s.revision] } := by
  have hget : ∀ {j : Nat} {z : Waiter}, (s.waiters ++ [.looping s.revision])[j]? = some z →
      s.waiters[j]? = some z ∨ z = .looping s.revision := by
    intro j z h
    rw [List.getElem?_append] at h
    split at h
    · exact .inl h
    · exact .inr (List.mem_singleton.mp (List.mem_of_getElem? h))
  have hback : ∀ {j : Nat}, (s.waiters ++ [.looping s.revision])[j]? = some .joining →
      s.waiters[j]? = some .joining := by
    intro j h
    rcases hget h with h | h
    · exact h
    · cases h
  exact
    { hi with
      slot := fun hj => ⟨(hi.slot hj).1, fun j hw => (hi.slot hj).2 j (hback hw)⟩
      joiner := fun j k hj hk => hi.joiner j k (hback hj) (hback hk)
      held := fun hh => hi.held (by
        rcases hh with hh | hh | ⟨j, hh⟩
        · exact .inl hh
        · exact .inr (.inl hh)
        · exact .inr (.inr ⟨j, hback hh⟩))
      waiters := fun j z hz => by
        rcases hget hz with hz | rfl
        · exact hi.waiters j z hz
        · trivial }

theorem step_inv (hi : s.Inv) (h : s.step a = some s') : s'.Inv := by
  cases a <;> simp only [step] at h
  case markRoot =>
    split at h
    case isFalse => cases h
    case isTrue hg =>
    cases h
    exact markRoot_inv hi hg.1 hg.2.2.2
  case install =>
    split at h
    case isFalse => cases h
    case isTrue hg =>
    cases h
    exact install_inv hi hg.1 hg.2 _
  case bind =>
    split at h
    case h_1 hr =>
      split at h
      case isTrue =>
        cases h
        exact hi
      case isFalse ht =>
        cases h
        exact bind_inv hi (by simpa using ht) (by simp [hr]) (by simp [hr]) (by simp)
    case h_2 hr =>
      split at h
      case isFalse => cases h
      case isTrue hg =>
      cases h
      exact bind_inv hi hg.1 (fun _ => hg.2) (by simp [hr]) (by simp)
    case h_3 => cases h
  case dropGuard e =>
    split at h
    case h_2 => cases h
    split at h
    case isFalse => cases h
    cases h
    exact hi.rebind _ StableBindingState.heir_release
      (fun ht => StableBindingState.current_release (hi.unbound (by simpa using ht))) (by simp)
  case terminal =>
    cases h
    exact hi.rebind _ StableBindingState.heir_makeTerminal (fun _ => rfl) (fun _ => rfl)
  case notify =>
    split at h
    case isFalse => cases h
    cases h
    exact hi.rebind _ rfl hi.unbound id
  case publish e v =>
    split at h
    case h_2 => cases h
    case h_1 r hr =>
    split at h
    case h_2 => cases h
    case h_1 ht =>
    cases h
    exact publish_inv hi hr ht v
  case complete e =>
    split at h
    case h_2 => cases h
    case h_1 r hr =>
    split at h
    case h_2 => cases h
    case h_1 ht =>
    cases h
    exact complete_inv hi hr ht
  case die e error =>
    split at h
    case h_2 => cases h
    case h_1 r hr =>
    split at h
    case h_2 => cases h
    case h_1 ht =>
    cases h
    exact die_inv hi hr ht error
  case requestAbort e =>
    split at h
    case h_2 => cases h
    case h_1 r hr =>
    split at h
    case h_2 => cases h
    case h_1 hw =>
    cases h
    exact wrapper_inv hi hr hw (by simp) (by simp)
  case join e =>
    split at h
    case h_2 => cases h
    case h_1 r hr =>
    split at h
    case h_2 => cases h
    case h_1 hw =>
    obtain ⟨v, hv, rfl⟩ := Option.map_eq_some_iff.mp h
    refine wrapper_inv hi hr hw (by simp) ?_
    intro x hx
    cases hx
    exact joinResult_task hv
  case send e =>
    split at h
    case h_2 => cases h
    case h_1 r hr =>
    split at h
    case h_2 => cases h
    case h_1 hw =>
    cases h
    exact send_inv hi hr hw
  case dropWrapper e =>
    split at h
    case h_2 => cases h
    case h_1 r hr =>
    split at h
    case h_2 => cases h
    case h_1 hw =>
    cases h
    exact wrapper_inv hi hr hw (by simp) (by simp)
  case dropDoneTx e =>
    split at h
    case h_2 => cases h
    case h_1 r hr =>
    split at h
    case h_3 => cases h
    all_goals
      rename_i hw
      cases h
      exact dropDoneTx_inv hi hr (by simp [hw]) (by simp [hw]) (hi.not_held (hi.nested hr (by simp [hw])))
  case call =>
    cases h
    exact call_inv hi
  case look w =>
    split at h
    case h_2 => cases h
    case h_1 hw =>
    split at h
    · cases h
      exact hi.setWaiter hw ‹_› (by simp)
    · cases h
      exact hi.setWaiter hw trivial (by simp)
    · cases h
      exact hi.setWaiter hw trivial (by simp)
  case checkRoot w =>
    split at h
    case h_2 => cases h
    case h_1 r hw hr =>
    have hready : s.root = .ready := hi.waiters w _ hw
    split at h
    case h_1 v hv =>
      cases h
      refine hi.setWaiter hw ⟨?_, fun hn => by simp [hready] at hn⟩ (by simp)
      rw [hi.answer_ready hready hr, Run.completion_of_value hv]
    case h_2 =>
      cases h
      exact hi.setWaiter hw hready (by simp)
  case takeJoin w =>
    split at h
    case h_2 => cases h
    case h_1 hw =>
    split at h
    case isTrue hj =>
      cases h
      exact takeJoin_inv hi hw hj
    case isFalse =>
      cases h
      have hready : s.root = .ready := hi.waiters w _ hw
      exact hi.setWaiter hw ⟨hi.latest_ready hready, .inr (by simp [hready])⟩ (by simp)
  case classify w =>
    split at h
    case h_2 => cases h
    case h_1 hw =>
    cases h
    exact classify_inv hi hw _
  case wake w =>
    split at h
    case h_2 => cases h
    case h_1 hw =>
    split at h
    · cases h
    · cases h
      exact hi.setWaiter hw trivial (by simp)
  case joinRoot w =>
    split at h
    case h_2 => cases h
    case h_1 r hw hr =>
    obtain ⟨v, hv, rfl⟩ := Option.map_eq_some_iff.mp h
    exact joinRoot_inv hi hw hr hv
  case receive w =>
    split at h
    case h_2 => cases h
    case h_1 rx hw =>
    split at h
    case h_2 => cases h
    case h_1 r hr =>
    obtain ⟨v, hv, rfl⟩ := Option.map_eq_some_iff.mp h
    obtain ⟨hl, ht⟩ := hi.waiters w _ hw
    refine hi.setWaiter hw ⟨?_, fun hn => ht.resolve_right fun h => h hn⟩ (by simp)
    simp [answer, hl, hr, hv]
  case cancel w =>
    split at h
    case h_1 | h_2 | h_3 => cases h
    case h_4 hw =>
      split at h
      case h_2 => cases h
      case h_1 r hr =>
      cases h
      obtain ⟨hi', hno⟩ := hi.give_up hw
      have habs : r.wrapper = .absent := (hi.wrapper 0 r hr).mpr (by
        have : s.root = .ready := hi.waiters w _ hw
        simp [this])
      exact dropDoneTx_inv hi' hr (by simp [habs]) (by simp [habs]) hno
    case h_5 hw =>
      cases h
      exact hi.setWaiter hw trivial (by simp)

/-! ## Agreement -/

/-- What the calls of `wait` that have resolved returned. -/
structure Agreed (s : State) : Prop where
  same : ∀ (w w' : Nat) (v v' : WaitResult), s.waiters[w]? = some (.resolved v) →
    s.waiters[w']? = some (.resolved v') → v = v'
  /-- A nested identity is terminal by then, and the result is the completion of the
      incarnation that was bound last, if any was. -/
  nested : s.root = .notRoot → ∀ (w : Nat) (v : WaitResult), s.waiters[w]? = some (.resolved v) →
    s.binding.terminal = true ∧
      ((s.runs = [] ∧ v = terminalError) ∨ ∃ r, s.runs.getLast? = some r ∧ r.completion = some v)

theorem Inv.agreed (hi : s.Inv) : s.Agreed where
  same w w' v v' h h' := by
    have h1 := (hi.waiters w _ h).1
    have h2 := (hi.waiters w' _ h').1
    simpa [h1] using h2
  nested hr w v h := by
    obtain ⟨ha, ht⟩ := hi.waiters w _ h
    refine ⟨ht hr, ?_⟩
    unfold answer latest at ha
    by_cases hn : s.runs = []
    · simp only [hn, if_true, ht hr] at ha
      cases ha
      exact .inl ⟨hn, rfl⟩
    · simp only [hn, if_false] at ha
      obtain ⟨r, hr, hc⟩ := Option.bind_eq_some_iff.mp ha
      exact .inr ⟨r, List.getLast?_eq_getElem?.trans hr, hc⟩

/-- For every interleaving of binds, guard drops, completions, judgments and cancelled or
    concurrent calls: all calls of `wait` that resolve agree. -/
theorem wait_agreed (name : String) (s : State) (h : Reach step (new name) s) : s.Agreed :=
  (h.invariant (new_inv name) fun _ _ _ hi hs => step_inv hi hs).agreed

/-- A root whose first waiter is cancelled while it joins, and whose task then panics:
    the two later calls see the closed channel. -/
theorem wait_agreed_cancelled : ∃ s, replay step (new "root")
    [.call, .markRoot, .bind, .install, .look 0, .checkRoot 0, .takeJoin 0, .call, .look 1, .checkRoot 1, .takeJoin 1,
      .cancel 0, .die 0 "panic", .receive 1, .call, .look 2, .checkRoot 2, .takeJoin 2, .receive 2] = some s ∧
    s.waiters[1]? = some (.resolved closedError) ∧ s.waiters[2]? = some (.resolved closedError) ∧ s.Agreed := by
  have hs : replay step (new "root")
    [.call, .markRoot, .bind, .install, .look 0, .checkRoot 0, .takeJoin 0, .call, .look 1, .checkRoot 1, .takeJoin 1,
      .cancel 0, .die 0 "panic", .receive 1, .call, .look 2, .checkRoot 2, .takeJoin 2, .receive 2] = some _ := rfl
  exact ⟨_, hs, rfl, rfl, wait_agreed "root" _ (Reach.of_replay hs)⟩

end State

end Wait

end Kokage.Identity
