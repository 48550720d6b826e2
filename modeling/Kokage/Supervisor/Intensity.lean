/-
  Kokage.Supervisor.Intensity — the restart tracker of one membership (`intensity.rs`):
  the sliding restart budget and the backoff before the next attempt.

  `times` is the deque of restart instants, oldest first. The jitter generator is the
  source's xorshift64; its seed is a parameter of `new` (the source reads the clock).
-/

import Kokage.Supervisor.Types

namespace Kokage.Supervisor

def xorshift64 (state : UInt64) : UInt64 :=
  let s := if state = 0 then 1 else state
  let s := s ^^^ (s <<< 13)
  let s := s ^^^ (s >>> 7)
  s ^^^ (s <<< 17)

structure JitterRng where
  state : UInt64
  deriving DecidableEq, Repr

def JitterRng.nextU64 (r : JitterRng) : UInt64 × JitterRng := (xorshift64 r.state, ⟨xorshift64 r.state⟩)

def JitterRng.jitterBetween (r : JitterRng) (min max : Duration) : Duration × JitterRng :=
  if max ≤ min then (max, r)
  else
    let (draw, r') := r.nextU64
    (min + draw.toNat % (max - min + 1), r')

/-- `Duration::saturating_mul`. -/
def saturatingMul (d : Duration) (factor : Nat) : Duration := min (d * factor) durationMax

/-- The loop of `exponential_backoff`, `steps` multiplications from `delay`. -/
def exponentialLoop (factor : Nat) (max : Duration) : Nat → Duration → Duration
  | 0, delay => min delay max
  | steps + 1, delay =>
    let delay := saturatingMul delay factor
    if max ≤ delay then max else exponentialLoop factor max steps delay

def exponentialBackoff (base : Duration) (factor : Nat) (max : Duration) (steps : Nat) : Duration :=
  exponentialLoop factor max steps base

structure RestartTracker where
  maxRestarts : Nat
  within : Duration
  backoffPolicy : Backoff
  times : List Instant
  rng : JitterRng
  totalRestarts : Nat
  consecutiveRestarts : Nat
  runStartedAt : Option Instant
  deriving DecidableEq, Repr

namespace RestartTracker

def new (intensity : RestartPolicy) (seed : UInt64) : RestartTracker where
  maxRestarts := intensity.maxRestarts.getD 0
  within := intensity.within.getD (secs 30)
  backoffPolicy := intensity.backoffPolicy.getD .none
  times := []
  rng := ⟨seed⟩
  totalRestarts := 0
  consecutiveRestarts := 0
  runStartedAt := none

def recordSpawn (t : RestartTracker) (now : Instant) : RestartTracker := { t with runStartedAt := some now }

def recordExit (t : RestartTracker) (now : Instant) : RestartTracker :=
  { t with
    runStartedAt := none
    consecutiveRestarts := if t.runStartedAt.any (fun at_ => decide (t.within < now - at_)) then 0
      else t.consecutiveRestarts }

def recordRestart (t : RestartTracker) (now : Instant) : RestartTracker :=
  { t with
    times := t.times.dropWhile (fun front => decide (t.within < now - front)) ++ [now]
    totalRestarts := t.totalRestarts + 1
    consecutiveRestarts := t.consecutiveRestarts + 1 }

def exceeded (t : RestartTracker) : Bool := decide (t.maxRestarts < t.times.length)

def backoff (t : RestartTracker) : Duration × RestartTracker :=
  match t.backoffPolicy with
  | .none => (0, t)
  | .fixed delay => (delay, t)
  | .exponential base factor max jitter =>
    let deterministic := exponentialBackoff base factor max (t.consecutiveRestarts - 1)
    if jitter then
      let (delay, rng) := t.rng.jitterBetween (deterministic / 2) deterministic
      (delay, { t with rng := rng })
    else (deterministic, t)

@[simp] theorem recordSpawn_total (t : RestartTracker) (now : Instant) :
    (t.recordSpawn now).totalRestarts = t.totalRestarts := rfl

@[simp] theorem recordExit_total (t : RestartTracker) (now : Instant) :
    (t.recordExit now).totalRestarts = t.totalRestarts := rfl

end RestartTracker

end Kokage.Supervisor
