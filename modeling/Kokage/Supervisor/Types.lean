/-
  Kokage.Supervisor.Types — the vocabulary of a supervised scope: restart and shutdown
  policies (`restart.rs`, `shutdown.rs`, `strategy.rs`, `scope.rs`), exits (`exit.rs`,
  `event.rs`), errors (`error.rs`), child declarations (`child.rs`), lifecycle events
  (`lifecycle.rs`) and published snapshots (`snapshot.rs`).

  Instants and durations are natural numbers of nanoseconds. The `u64` counters
  (lineage, generation, sequence, restart totals) are natural numbers; the source lets
  them saturate at `u64::MAX`. Task factories, attachments and error values are opaque:
  an error is its display text.
-/

import Mathlib.Algebra.Group.Nat.Defs
import Mathlib.Data.List.Basic

namespace Kokage.Supervisor

abbrev Instant := Nat
abbrev Duration := Nat
abbrev ChildKey := Nat
abbrev TaskId := Nat

def millis (n : Nat) : Duration := n * 1000000
def secs (n : Nat) : Duration := n * 1000000000

/-- `Duration::MAX`. -/
def durationMax : Duration := (2 ^ 64 - 1) * 1000000000 + 999999999

/-! ## Policies -/

inductive Strategy where
  | oneForOne
  | oneForAll
  | restForOne
  deriving DecidableEq, Repr

inductive ScopeKind where
  | ordered
  | dynamic
  deriving DecidableEq, Repr

inductive BuildError where
  | duplicateChildId (id : String)
  | invalidConfig (message : String)
  deriving DecidableEq, Repr

inductive Backoff where
  | none
  | fixed (delay : Duration)
  | exponential (base : Duration) (factor : Nat) (max : Duration) (jitter : Bool)
  deriving DecidableEq, Repr

inductive RestartPolicy where
  | always (maxRestarts : Nat) (within : Duration) (backoff : Backoff)
  | onFailure (maxRestarts : Nat) (within : Duration) (backoff : Backoff)
  | never
  deriving DecidableEq, Repr

def requireNonZeroDuration (duration : Duration) (message : String) : Except BuildError Unit :=
  if duration = 0 then .error (.invalidConfig message) else .ok ()

def Backoff.validate : Backoff → Except BuildError Unit
  | .none => .ok ()
  | .fixed delay => requireNonZeroDuration delay "fixed backoff delay must be non-zero"
  | .exponential base factor max _ => do
    requireNonZeroDuration base "exponential backoff base must be non-zero"
    if factor = 0 then throw (.invalidConfig "exponential backoff factor must be non-zero")
    requireNonZeroDuration max "exponential backoff max must be non-zero"

namespace RestartPolicy

/-- The default: five restarts of failed exits within thirty seconds, immediately. -/
def default : RestartPolicy := .onFailure 5 (secs 30) .none

def shouldRestart (isFailure : Bool) : RestartPolicy → Bool
  | .always .. => true
  | .onFailure .. => isFailure
  | .never => false

def isNever : RestartPolicy → Bool
  | .never => true
  | _ => false

theorem not_never {r : RestartPolicy} {isFailure : Bool} (h : r.shouldRestart isFailure = true) : r.isNever = false := by
  cases r with
  | never => cases h
  | _ => rfl

def validate : RestartPolicy → Except BuildError Unit
  | .always _ within backoff | .onFailure _ within backoff => do
    requireNonZeroDuration within "restart intensity window must be non-zero"
    backoff.validate
  | .never => .ok ()

def maxRestarts : RestartPolicy → Option Nat
  | .always m _ _ | .onFailure m _ _ => some m
  | .never => none

def within : RestartPolicy → Option Duration
  | .always _ w _ | .onFailure _ w _ => some w
  | .never => none

def backoffPolicy : RestartPolicy → Option Backoff
  | .always _ _ b | .onFailure _ _ b => some b
  | .never => none

end RestartPolicy

inductive Shutdown where
  | graceful (grace : Duration)
  | abort
  deriving DecidableEq, Repr

namespace Shutdown

def default : Shutdown := .graceful (secs 5)

def grace : Shutdown → Option Duration
  | .graceful g => some g
  | .abort => none

def isAbort : Shutdown → Bool
  | .abort => true
  | .graceful _ => false

end Shutdown

/-- The window between a child's grace expiring and its hard abort. -/
def tidyAbortBeat (grace : Duration) : Duration := max (millis 1) (min (grace / 10) (millis 10))

/-! ## Errors -/

inductive SupervisorError where
  | startupAborted (message : String)
  | restartIntensityExceeded
  | shutdownTimedOut (names : String)
  | internal (message : String)
  deriving DecidableEq, Repr

inductive ControlError where
  | unknownChildId (id : String)
  | childRemovalInProgress (id : String)
  | rejected (error : BuildError)
  | failed (error : SupervisorError)
  | unavailable
  deriving DecidableEq, Repr

/-! ## Exits -/

/-- What a child task returns (`ExitResult`); a readiness timeout is an error the
    classification recognises by its type. -/
inductive ExitResult where
  | ok
  | error (message : String)
  | readinessTimedOut (timeout : Duration)
  deriving DecidableEq, Repr

inductive ExitKind where
  | completed
  | failed (message : String)
  | readinessTimedOut (timeout : Duration)
  | panicked
  | aborted (afterGrace : Bool)
  deriving DecidableEq, Repr

def ExitKind.isFailure : ExitKind → Bool
  | .completed => false
  | _ => true

inductive RuntimeExitStatus where
  | completed
  | failed (message : String)
  | readinessTimedOut (timeout : Duration)
  | panicked
  | aborted
  | shutdownTimedOut
  deriving DecidableEq, Repr

namespace RuntimeExitStatus

def fromChildResult : ExitResult → RuntimeExitStatus
  | .ok => .completed
  | .readinessTimedOut t => .readinessTimedOut t
  | .error m => .failed m

def isFailure : RuntimeExitStatus → Bool
  | .completed => false
  | _ => true

def view : RuntimeExitStatus → ExitKind
  | .completed => .completed
  | .failed m => .failed m
  | .readinessTimedOut t => .readinessTimedOut t
  | .panicked => .panicked
  | .aborted => .aborted false
  | .shutdownTimedOut => .aborted true

theorem isFailure_view (status : RuntimeExitStatus) : status.view.isFailure = status.isFailure := by
  cases status <;> rfl

end RuntimeExitStatus

/-- The public `ExitStatus`: an exit kind and whether shutdown was requested for the
    generation (every variant of the source carries the flag). -/
structure ExitStatus where
  kind : ExitKind
  cancelled : Bool
  deriving DecidableEq, Repr

/-! ## Declarations -/

inductive ChildReadiness where
  | immediate
  | manual (timeout : Duration)
  | automatic
  deriving DecidableEq, Repr

def ChildReadiness.isGated : ChildReadiness → Bool
  | .immediate => false
  | _ => true

/-- A task, or a nested supervisor with the stable identity its declaration owns. -/
inductive ChildKind where
  | task
  | supervisor (channels : Nat)
  deriving DecidableEq, Repr

def ChildKind.isSupervisor : ChildKind → Bool
  | .supervisor _ => true
  | .task => false

structure ChildDefinition where
  id : String
  restart : RestartPolicy := .default
  restartIsDefault : Bool := true
  shutdownPolicy : Shutdown := .default
  shutdownIsDefault : Bool := true
  removeOnTerminalExit : Bool := false
  readiness : ChildReadiness := .immediate
  kind : ChildKind := .task
  deriving DecidableEq, Repr

def ChildDefinition.applyDefaults (d : ChildDefinition) (restart : RestartPolicy) (shutdown : Shutdown) :
    ChildDefinition :=
  { d with restart := if d.restartIsDefault then restart else d.restart
           shutdownPolicy := if d.shutdownIsDefault then shutdown else d.shutdownPolicy }

/-! ## Lifecycle events -/

inductive ChildEventKind where
  | added
  | started (generation : Nat)
  | exited (generation : Nat) (exit : ExitStatus)
  | removed
  | restartScheduled (generation : Nat) (delay : Duration)
  deriving DecidableEq, Repr

structure ChildEvent where
  seq : Nat
  childId : String
  lineage : Nat
  totalRestarts : Nat
  childRestartCount : Nat
  kind : ChildEventKind
  deriving DecidableEq, Repr

def ChildEvent.removal (e : ChildEvent) : Option (String × Nat) :=
  match e.kind with
  | .removed => some (e.childId, e.lineage)
  | _ => none

structure LifecycleEventDraft where
  childId : String
  lineage : Nat
  totalRestarts : Nat
  childRestartCount : Nat
  kind : ChildEventKind
  deriving DecidableEq, Repr

/-- A scope-level transition of the lifecycle stream; it carries no sequence. -/
inductive SupervisorEventKind where
  | supervisorStarted
  | supervisorStopping
  | supervisorStopped
  | restartIntensityExceeded (totalRestarts : Nat)
  deriving DecidableEq, Repr

/-! ## Snapshots -/

inductive SupervisorStateView where
  | running
  | stopping
  | stopped
  deriving DecidableEq, Repr

inductive ChildMembershipView where
  | active
  | removing
  deriving DecidableEq, Repr

inductive ChildStateView where
  | starting (previousExit : Option ExitStatus)
  | running (previousExit : Option ExitStatus)
  | stopping (started : Bool) (previousExit : Option ExitStatus)
  | stopped (started : Bool) (exit : Option ExitStatus)
  | startupAborted (exit : ExitStatus)
  deriving DecidableEq, Repr

/-- The newest observed exit, if any. -/
def ChildStateView.lastExit : ChildStateView → Option ExitStatus
  | .starting e | .running e | .stopping _ e | .stopped _ e => e
  | .startupAborted e => some e

mutual

structure SupervisorSnapshot where
  state : SupervisorStateView
  kind : ScopeKind
  strategy : Strategy
  totalRestarts : Nat
  lifecycleSeq : Nat
  children : List ChildSnapshot

structure ChildSnapshot where
  id : String
  lineage : Nat
  generation : Nat
  state : ChildStateView
  membership : ChildMembershipView
  restartCount : Nat
  restartPolicy : RestartPolicy
  removeOnTerminalExit : Bool
  nextRestartIn : Option Duration
  supervisor : Option SupervisorSnapshot

end

mutual

def SupervisorSnapshot.decEq : (a b : SupervisorSnapshot) → Decidable (a = b)
  | ⟨s, k, st, t, l, c⟩, ⟨s', k', st', t', l', c'⟩ =>
    match childrenDecEq c c' with
    | .isTrue h => decidable_of_iff (s = s' ∧ k = k' ∧ st = st' ∧ t = t' ∧ l = l') (by subst h; simp)
    | .isFalse h => .isFalse (by simp [h])

def ChildSnapshot.decEq : (a b : ChildSnapshot) → Decidable (a = b)
  | ⟨i, l, g, s, m, r, p, x, n, v⟩, ⟨i', l', g', s', m', r', p', x', n', v'⟩ =>
    match nestedDecEq v v' with
    | .isTrue h =>
      decidable_of_iff (i = i' ∧ l = l' ∧ g = g' ∧ s = s' ∧ m = m' ∧ r = r' ∧ p = p' ∧ x = x' ∧ n = n')
        (by subst h; simp)
    | .isFalse h => .isFalse (by simp [h])

def childrenDecEq : (a b : List ChildSnapshot) → Decidable (a = b)
  | [], [] => .isTrue rfl
  | [], _ :: _ => .isFalse (by simp)
  | _ :: _, [] => .isFalse (by simp)
  | x :: xs, y :: ys =>
    match ChildSnapshot.decEq x y, childrenDecEq xs ys with
    | .isTrue h, .isTrue h' => .isTrue (by rw [h, h'])
    | .isFalse h, _ => .isFalse (by simp [h])
    | _, .isFalse h => .isFalse (by simp [h])

def nestedDecEq : (a b : Option SupervisorSnapshot) → Decidable (a = b)
  | none, none => .isTrue rfl
  | none, some _ => .isFalse (by simp)
  | some _, none => .isFalse (by simp)
  | some x, some y =>
    match SupervisorSnapshot.decEq x y with
    | .isTrue h => .isTrue (by rw [h])
    | .isFalse h => .isFalse (by simp [h])

end
instance : DecidableEq SupervisorSnapshot := SupervisorSnapshot.decEq

end Kokage.Supervisor
