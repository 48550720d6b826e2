/-
  Kokage.Actor.Interval — the deadlines of timers (`actor/context.rs`: `deadline_after`,
  `next_interval_deadline`, `interval_advance`).

  A deadline beyond the clock's last instant is replaced by one thirty years ahead. The
  next deadline of an interval is computed in 128-bit nanoseconds from how often its
  period fits into the time that has passed; `next_interval_deadline_exact` says that
  this is the first one after now, and that no step of the computation overflows,
  truncates or divides by zero. That thirty years from now can be represented is what
  tokio's own far future rests on.
-/

import Kokage.Lib.Time

namespace Kokage.Actor

open Kokage.Lib.Time

variable {c : Clock}

/-- `FAR_FUTURE`. -/
def farFuture : Duration := .ofSecs (86400 * 365 * 30) (by decide)

/-- `none` is the panic of `now + FAR_FUTURE`. -/
def deadlineAfter (now : Instant c) (delay : Duration) : Option (Instant c) :=
  match now.checkedAdd delay with
  | some deadline => some deadline
  | none => now.checkedAdd farFuture

def intervalAdvance (elapsed period : Duration) : Option Duration := do
  let quotient ← checkedDiv elapsed.asNanos period.asNanos
  let periods ← checkedAdd 128 quotient 1
  let advance := saturatingMul 128 period.asNanos periods
  let seconds := castOrMax 64 (advance / nanosPerSec)
  let nanoseconds ← checkedCast 32 (advance % nanosPerSec)
  Duration.new seconds nanoseconds

def nextIntervalDeadline (now deadline : Instant c) (period : Duration) : Option (Instant c) := do
  let advance ← intervalAdvance (now.saturatingDurationSince deadline) period
  match deadline.checkedAdd advance with
  | some next => some next
  | none => deadlineAfter now farFuture

/-! ## How far an interval advances -/

/-- The periods up to the first that is not over, in nanoseconds. -/
def wholePeriods (elapsed period : Nat) : Nat := period * (elapsed / period + 1)

theorem lt_wholePeriods (elapsed : Nat) {period : Nat} (hp : 0 < period) : elapsed < wholePeriods elapsed period :=
  Nat.lt_mul_div_succ elapsed hp

theorem wholePeriods_le (elapsed period : Nat) : wholePeriods elapsed period ≤ elapsed + period := by
  have h := Nat.mul_div_le elapsed period
  unfold wholePeriods
  rw [Nat.mul_succ]
  omega

theorem intervalAdvance_steps {elapsed period : Duration} {quotient periods nanoseconds : Nat}
    (hq : checkedDiv elapsed.asNanos period.asNanos = some quotient) (hp : checkedAdd 128 quotient 1 = some periods)
    (hn : checkedCast 32 (saturatingMul 128 period.asNanos periods % nanosPerSec) = some nanoseconds) :
    intervalAdvance elapsed period =
      Duration.new (castOrMax 64 (saturatingMul 128 period.asNanos periods / nanosPerSec)) nanoseconds :=
  (bind_of_some hq).trans ((bind_of_some hp).trans (bind_of_some hn))

/-- Every step goes through, and the product is the whole periods. -/
theorem intervalAdvance_new {elapsed period : Duration} (hp : 0 < period.asNanos) :
    intervalAdvance elapsed period =
      Duration.new (castOrMax 64 (wholePeriods elapsed.asNanos period.asNanos / nanosPerSec))
        (wholePeriods elapsed.asNanos period.asNanos % nanosPerSec) := by
  have hsum := wholePeriods_le elapsed.asNanos period.asNanos
  have hsmall := add_lt_word elapsed.le_max period.le_max
  have hquot := Nat.div_le_self elapsed.asNanos period.asNanos
  have hproduct : saturatingMul 128 period.asNanos (elapsed.asNanos / period.asNanos + 1) = wholePeriods elapsed.asNanos period.asNanos :=
    saturatingMul_of_lt (Nat.lt_of_le_of_lt hsum (by omega))
  have hperiods : checkedAdd 128 (elapsed.asNanos / period.asNanos) 1 = some (elapsed.asNanos / period.asNanos + 1) :=
    checkedAdd_of_lt (by omega)
  have hsteps := intervalAdvance_steps (checkedDiv_of_pos hp) hperiods (checkedCast_of_lt (subsec_lt _))
  rw [hproduct] at hsteps
  exact hsteps

/-- The advance is exact while its seconds fit their word, and else at least as long as
    they can say. -/
theorem intervalAdvance_eq (elapsed : Duration) {period : Duration} (hp : 0 < period.asNanos) :
    ∃ advance, intervalAdvance elapsed period = some advance ∧
      (wholePeriods elapsed.asNanos period.asNanos ≤ maxNanos → advance.asNanos = wholePeriods elapsed.asNanos period.asNanos) ∧
      (maxNanos < wholePeriods elapsed.asNanos period.asNanos → (2 ^ 64 - 1) * nanosPerSec ≤ advance.asNanos) := by
  rw [intervalAdvance_new hp]
  generalize wholePeriods elapsed.asNanos period.asNanos = advance
  by_cases h : advance ≤ maxNanos
  · rw [castOrMax_of_lt (le_maxNanos_iff.mp h), Duration.new_split h]
    exact ⟨⟨advance, h⟩, rfl, fun _ => rfl, fun h' => absurd h (Nat.not_le_of_lt h')⟩
  · have hsecs : castOrMax 64 (advance / nanosPerSec) = 2 ^ 64 - 1 := if_neg fun hlt => h (le_maxNanos_iff.mpr hlt)
    have hfits := maxSecs_add_le advance
    rw [hsecs]
    exact ⟨⟨_, hfits⟩, dif_pos hfits, fun h' => absurd h' h, fun _ => Nat.le_add_right ..⟩

/-! ## The next deadline -/

/-- The deadlines of an interval that are still to come. -/
def Upcoming (now deadline period : Nat) : Set Nat := { t | ∃ k, 1 ≤ k ∧ t = deadline + k * period ∧ now < t }

theorem upcoming_least {now deadline period : Nat} (hle : deadline ≤ now) (hp : 0 < period) :
    IsLeast (Upcoming now deadline period) (deadline + wholePeriods (now - deadline) period) := by
  constructor
  · refine ⟨(now - deadline) / period + 1, Nat.le_add_left .., ?_, ?_⟩
    · rw [wholePeriods, Nat.mul_comm]
    · have h := lt_wholePeriods (now - deadline) hp
      omega
  · rintro t ⟨k, -, rfl, hlt⟩
    have hk : (now - deadline) / period < k := by
      rw [Nat.div_lt_iff_lt_mul hp]
      omega
    have hmul : period * ((now - deadline) / period + 1) ≤ period * k := Nat.mul_le_mul_left _ hk
    rw [Nat.mul_comm period k] at hmul
    unfold wholePeriods
    omega

variable {now deadline : Instant c} {period : Duration}

theorem deadlineAfter_of_le {delay : Duration} (h : now.nanos + delay.asNanos ≤ c.horizon) :
    deadlineAfter now delay = some ⟨now.nanos + delay.asNanos, h⟩ := by
  unfold deadlineAfter
  rw [Instant.checkedAdd_of_le h]

theorem deadlineAfter_of_lt {delay : Duration} (h : c.horizon < now.nanos + delay.asNanos) :
    deadlineAfter now delay = now.checkedAdd farFuture := by
  unfold deadlineAfter
  rw [Instant.checkedAdd_of_lt h]

theorem deadlineAfter_some (delay : Duration) (hfar : now.nanos + farFuture.asNanos ≤ c.horizon) :
    ∃ deadline, deadlineAfter now delay = some deadline := by
  by_cases h : now.nanos + delay.asNanos ≤ c.horizon
  · exact ⟨_, deadlineAfter_of_le h⟩
  · rw [deadlineAfter_of_lt (Nat.lt_of_not_le h)]
    exact ⟨_, Instant.checkedAdd_of_le hfar⟩

theorem nextIntervalDeadline_of_le {advance : Duration}
    (hadv : intervalAdvance (now.saturatingDurationSince deadline) period = some advance)
    (h : deadline.nanos + advance.asNanos ≤ c.horizon) :
    nextIntervalDeadline now deadline period = some ⟨deadline.nanos + advance.asNanos, h⟩ := by
  refine (bind_of_some hadv).trans ?_
  rw [Instant.checkedAdd_of_le h]

theorem nextIntervalDeadline_of_lt {advance : Duration}
    (hadv : intervalAdvance (now.saturatingDurationSince deadline) period = some advance)
    (h : c.horizon < deadline.nanos + advance.asNanos) :
    nextIntervalDeadline now deadline period = deadlineAfter now farFuture := by
  refine (bind_of_some hadv).trans ?_
  rw [Instant.checkedAdd_of_lt h]

theorem farFuture_pos : 0 < farFuture.asNanos := by decide

theorem lt_maxSecs {n : Nat} (h : n + farFuture.asNanos ≤ maxNanos) : n < (2 ^ 64 - 1) * nanosPerSec := by
  have hlong : maxNanos < (2 ^ 64 - 1) * nanosPerSec + farFuture.asNanos := by decide
  generalize (2 ^ 64 - 1) * nanosPerSec = m at hlong ⊢
  omega

/-- The next deadline is the whole periods after the last one, or a saturated instant where
    that one is beyond the clock. It is after now either way. -/
theorem nextIntervalDeadline_next (hle : deadline ≤ now) (hp : period ≠ .zero) (hfar : now.nanos + farFuture.asNanos ≤ c.horizon) :
    ∃ next, nextIntervalDeadline now deadline period = some next ∧ now < next ∧
      (next.nanos = deadline.nanos + wholePeriods (now.nanos - deadline.nanos) period.asNanos ∨
        c.horizon < deadline.nanos + wholePeriods (now.nanos - deadline.nanos) period.asNanos ∧
        (next.nanos = now.nanos + farFuture.asNanos ∨ (2 ^ 64 - 1) * nanosPerSec ≤ next.nanos)) := by
  have hpos : 0 < period.asNanos := Nat.pos_of_ne_zero fun h => hp (Duration.ext h)
  have hle : deadline.nanos ≤ now.nanos := hle
  have hlater := lt_wholePeriods (now.nanos - deadline.nanos) hpos
  obtain ⟨advance, hadv, hexact, hsat⟩ := intervalAdvance_eq (now.saturatingDurationSince deadline) hpos
  change (wholePeriods (now.nanos - deadline.nanos) period.asNanos ≤ _ → _ = wholePeriods (now.nanos - deadline.nanos) _) at hexact
  change (_ < wholePeriods (now.nanos - deadline.nanos) period.asNanos → _) at hsat
  generalize wholePeriods (now.nanos - deadline.nanos) period.asNanos = whole at *
  have hreach := c.horizon_le
  by_cases hfits : deadline.nanos + advance.asNanos ≤ c.horizon
  · refine ⟨_, nextIntervalDeadline_of_le hadv hfits, ?_⟩
    by_cases hwhole : whole ≤ maxNanos
    · have heq := hexact hwhole
      have hnext : now.nanos < deadline.nanos + advance.asNanos := by omega
      exact ⟨hnext, .inl (congrArg (deadline.nanos + ·) heq)⟩
    · have hlong := hsat (by omega)
      have hsecs := lt_maxSecs (Nat.le_trans hfar hreach)
      have hlast : (2 ^ 64 - 1) * nanosPerSec ≤ deadline.nanos + advance.asNanos := Nat.le_trans hlong (Nat.le_add_left ..)
      exact ⟨Nat.lt_of_lt_of_le hsecs hlast, .inr ⟨by omega, .inr hlast⟩⟩
  · have h := Nat.lt_of_not_le hfits
    refine ⟨_, (nextIntervalDeadline_of_lt hadv h).trans (deadlineAfter_of_le hfar), Nat.lt_add_of_pos_right farFuture_pos, ?_⟩
    refine .inr ⟨?_, .inl rfl⟩
    by_cases hwhole : whole ≤ maxNanos
    · have heq := hexact hwhole
      omega
    · omega

/-- The next deadline of an interval is the least one after now, at most a period away; one
    that cannot be represented is replaced by an instant after now, thirty years ahead or at
    the last second that any clock has. -/
theorem next_interval_deadline_exact (now deadline : Instant c) (period : Duration) (hle : deadline ≤ now) (hp : period ≠ .zero)
    (hfar : now.nanos + farFuture.asNanos ≤ c.horizon) :
    ∃ target, IsLeast (Upcoming now.nanos deadline.nanos period.asNanos) target ∧ target ≤ now.nanos + period.asNanos ∧
      ∃ next, nextIntervalDeadline now deadline period = some next ∧ now < next ∧
        (target ≤ c.horizon → next.nanos = target) ∧
        (c.horizon < target → next.nanos = now.nanos + farFuture.asNanos ∨ (2 ^ 64 - 1) * nanosPerSec ≤ next.nanos) := by
  have hpos : 0 < period.asNanos := Nat.pos_of_ne_zero fun h => hp (Duration.ext h)
  have hclose := wholePeriods_le (now.nanos - deadline.nanos) period.asNanos
  obtain ⟨next, hnext, hlater, hcases⟩ := nextIntervalDeadline_next hle hp hfar
  have hle : deadline.nanos ≤ now.nanos := hle
  refine ⟨_, upcoming_least hle hpos, by omega, next, hnext, hlater, ?_⟩
  have hlast := next.le_horizon
  rcases hcases with heq | ⟨hbeyond, hsat⟩
  · exact ⟨fun _ => heq, fun h => by omega⟩
  · exact ⟨fun h => by omega, fun _ => hsat⟩

/-- Fifteen nanoseconds after its deadline, a period of ten is over once. -/
theorem next_interval_deadline_after_two :
    ∃ next, nextIntervalDeadline (c := Clock.signed) ⟨25, by decide⟩ ⟨10, by decide⟩ ⟨10, by decide⟩ = some next ∧ next.nanos = 30 := by
  have h := next_interval_deadline_exact (c := Clock.signed) ⟨25, by decide⟩ ⟨10, by decide⟩ ⟨10, by decide⟩ (by decide) (by decide) (by decide)
  obtain ⟨target, hleast, hclose, next, hnext, -, hexact, -⟩ := h
  have hthirty : IsLeast (Upcoming 25 10 10) 30 := upcoming_least (by decide) (by decide)
  have htarget : target = 30 := hleast.unique hthirty
  subst htarget
  exact ⟨next, hnext, hexact (by decide)⟩

end Kokage.Actor
