/-
  Kokage.Lib.Time — machine words, durations and instants.

  A checked operation gives `none` where the machine would overflow, truncate or divide by
  zero. A `Duration` counts nanoseconds up to `u64::MAX` seconds and 999,999,999 more. A
  `Clock` says how far its instants reach; an `Instant` counts from the first of them, so
  any two of them are a `Duration` apart.
-/

import Mathlib.Algebra.Group.Nat.Defs
import Mathlib.Order.Bounds.Basic

namespace Kokage.Lib.Time

/-! ## Words -/

def checkedAdd (width a b : Nat) : Option Nat := if a + b < 2 ^ width then some (a + b) else none

def checkedSub (a b : Nat) : Option Nat := if b ≤ a then some (a - b) else none

def checkedDiv (a b : Nat) : Option Nat := if b = 0 then none else some (a / b)

def checkedRem (a b : Nat) : Option Nat := if b = 0 then none else some (a % b)

/-- An `as` cast to a narrower word that keeps the value. -/
def checkedCast (width a : Nat) : Option Nat := if a < 2 ^ width then some a else none

def saturatingMul (width a b : Nat) : Nat := min (a * b) (2 ^ width - 1)

def saturatingAdd (width a b : Nat) : Nat := min (a + b) (2 ^ width - 1)

/-- `try_from` to a narrower word, or its greatest value. -/
def castOrMax (width a : Nat) : Nat := if a < 2 ^ width then a else 2 ^ width - 1

section Words

variable {width a b : Nat}

theorem checkedAdd_of_lt (h : a + b < 2 ^ width) : checkedAdd width a b = some (a + b) := if_pos h

theorem checkedSub_of_le (h : b ≤ a) : checkedSub a b = some (a - b) := if_pos h

theorem checkedDiv_of_pos (h : 0 < b) : checkedDiv a b = some (a / b) := if_neg (by omega)

theorem checkedRem_of_pos (h : 0 < b) : checkedRem a b = some (a % b) := if_neg (by omega)

theorem checkedCast_of_lt (h : a < 2 ^ width) : checkedCast width a = some a := if_pos h

theorem saturatingMul_of_lt (h : a * b < 2 ^ width) : saturatingMul width a b = a * b := Nat.min_eq_left (by omega)

theorem castOrMax_of_lt (h : a < 2 ^ width) : castOrMax width a = a := if_pos h

/-- One step of a computation that goes through. -/
theorem bind_of_some {α β : Type} {o : Option α} {x : α} {f : α → Option β} (h : o = some x) : o.bind f = f x := by
  subst h
  rfl

end Words

/-! ## Durations -/

def nanosPerSec : Nat := 1000000000

/-- The nanoseconds of `Duration::MAX`. -/
def maxNanos : Nat := (2 ^ 64 - 1) * nanosPerSec + 999999999

structure Duration where
  asNanos : Nat
  le_max : asNanos ≤ maxNanos
  deriving DecidableEq, Repr

namespace Duration

variable {d d' : Duration}

theorem ext (h : d.asNanos = d'.asNanos) : d = d' := by
  cases d
  cases d'
  cases h
  rfl

def zero : Duration := ⟨0, Nat.zero_le _⟩

def max : Duration := ⟨maxNanos, Nat.le_refl _⟩

/-- `Duration::new`: the nanoseconds carry into the seconds. -/
def new (secs nanos : Nat) : Option Duration :=
  if h : secs * nanosPerSec + nanos ≤ maxNanos then some ⟨secs * nanosPerSec + nanos, h⟩ else none

def ofSecs (secs : Nat) (h : secs < 2 ^ 64) : Duration where
  asNanos := secs * nanosPerSec
  le_max := Nat.le_trans (Nat.mul_le_mul_right _ (Nat.le_pred_of_lt h)) (Nat.le_add_right ..)

def saturatingMul (d : Duration) (factor : Nat) : Duration := ⟨min (d.asNanos * factor) maxNanos, Nat.min_le_right ..⟩

instance : LE Duration := ⟨fun d d' => d.asNanos ≤ d'.asNanos⟩

instance (d d' : Duration) : Decidable (d ≤ d') := inferInstanceAs (Decidable (d.asNanos ≤ d'.asNanos))

/-- A number of nanoseconds, split into the arguments of `Duration::new`. -/
theorem new_split {n : Nat} (h : n ≤ maxNanos) : new (n / nanosPerSec) (n % nanosPerSec) = some ⟨n, h⟩ := by
  have heq : n / nanosPerSec * nanosPerSec + n % nanosPerSec = n := Nat.div_add_mod' n nanosPerSec
  unfold new
  simp only [heq]
  rw [dif_pos h]

end Duration

/-- Durations are what the seconds of a 64-bit word can say. -/
theorem le_maxNanos_iff {n : Nat} : n ≤ maxNanos ↔ n / nanosPerSec < 2 ^ 64 := by
  have hmax : maxNanos + 1 = 2 ^ 64 * nanosPerSec := by decide
  rw [Nat.div_lt_iff_lt_mul (by decide), ← hmax]
  exact Nat.lt_succ_iff.symm

/-- The nanoseconds below the second fit theirs. -/
theorem subsec_lt (n : Nat) : n % nanosPerSec < 2 ^ 32 := Nat.lt_trans (Nat.mod_lt n (by decide)) (by decide)

theorem maxSecs_add_le (n : Nat) : (2 ^ 64 - 1) * nanosPerSec + n % nanosPerSec ≤ maxNanos := by
  have h : n % nanosPerSec < nanosPerSec := Nat.mod_lt n (by decide)
  have hmax : (2 ^ 64 - 1) * nanosPerSec + nanosPerSec = maxNanos + 1 := by decide
  generalize (2 ^ 64 - 1) * nanosPerSec = m at hmax ⊢
  omega

/-- The sum of two durations is far from the end of a 128-bit word. -/
theorem add_lt_word {a b : Nat} (ha : a ≤ maxNanos) (hb : b ≤ maxNanos) : a + b + 1 < 2 ^ 128 := by
  have h : 2 * maxNanos + 2 < 2 ^ 128 := by decide
  omega

/-! ## Instants -/

structure Clock where
  /-- How many nanoseconds the last instant is after the first. -/
  horizon : Nat
  horizon_le : horizon ≤ maxNanos

/-- A clock of signed 64-bit seconds that starts at zero. -/
def Clock.signed : Clock := ⟨(2 ^ 63 - 1) * nanosPerSec, by decide⟩

structure Instant (c : Clock) where
  nanos : Nat
  le_horizon : nanos ≤ c.horizon
  deriving DecidableEq, Repr

namespace Instant

variable {c : Clock} {t t' : Instant c} {d : Duration}

theorem ext (h : t.nanos = t'.nanos) : t = t' := by
  cases t
  cases t'
  cases h
  rfl

instance : LE (Instant c) := ⟨fun t t' => t.nanos ≤ t'.nanos⟩

instance : LT (Instant c) := ⟨fun t t' => t.nanos < t'.nanos⟩

instance (t t' : Instant c) : Decidable (t ≤ t') := inferInstanceAs (Decidable (t.nanos ≤ t'.nanos))

instance (t t' : Instant c) : Decidable (t < t') := inferInstanceAs (Decidable (t.nanos < t'.nanos))

def checkedAdd (t : Instant c) (d : Duration) : Option (Instant c) :=
  if h : t.nanos + d.asNanos ≤ c.horizon then some ⟨t.nanos + d.asNanos, h⟩ else none

def saturatingDurationSince (t earlier : Instant c) : Duration :=
  ⟨t.nanos - earlier.nanos, Nat.le_trans (Nat.sub_le ..) (Nat.le_trans t.le_horizon c.horizon_le)⟩

/-- Time goes on, up to the last instant. -/
theorem le_checkedAdd_getD (t : Instant c) {d : Duration} : t ≤ (t.checkedAdd d).getD t := by
  unfold checkedAdd
  split
  · exact Nat.le_add_right ..
  · exact Nat.le_refl _

theorem checkedAdd_of_le (h : t.nanos + d.asNanos ≤ c.horizon) : t.checkedAdd d = some ⟨t.nanos + d.asNanos, h⟩ := dif_pos h

theorem checkedAdd_of_lt (h : c.horizon < t.nanos + d.asNanos) : t.checkedAdd d = none := dif_neg (by omega)

end Instant

end Kokage.Lib.Time
