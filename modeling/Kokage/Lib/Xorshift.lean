/-
  Kokage.Lib.Xorshift — the steps of an xorshift generator reach every word.

  A step adds to a word its own shift, without carries. Two steps of one distance are one
  step of twice the distance, and a step of the whole width changes nothing; so repeating a
  step gives its inverse.
-/

import Mathlib.Algebra.Group.Nat.Defs

namespace Kokage.Lib.Xorshift

variable {w : Nat}

def leftStep (k : Nat) (x : BitVec w) : BitVec w := x ^^^ (x <<< k)

def rightStep (k : Nat) (x : BitVec w) : BitVec w := x ^^^ (x >>> k)

theorem leftStep_twice (k : Nat) (x : BitVec w) : leftStep k (leftStep k x) = leftStep (k + k) x := by
  unfold leftStep
  rw [BitVec.shiftLeft_xor_distrib, ← BitVec.shiftLeft_add, BitVec.xor_assoc, ← BitVec.xor_assoc (x <<< k),
    BitVec.xor_self, BitVec.zero_xor]

theorem rightStep_twice (k : Nat) (x : BitVec w) : rightStep k (rightStep k x) = rightStep (k + k) x := by
  unfold rightStep
  rw [BitVec.ushiftRight_xor_distrib, ← BitVec.shiftRight_add, BitVec.xor_assoc, ← BitVec.xor_assoc (x >>> k),
    BitVec.xor_self, BitVec.zero_xor]

theorem leftStep_far {k : Nat} (h : w ≤ k) (x : BitVec w) : leftStep k x = x := by
  unfold leftStep
  rw [BitVec.shiftLeft_eq_zero h, BitVec.xor_zero]

theorem rightStep_far {k : Nat} (h : w ≤ k) (x : BitVec w) : rightStep k x = x := by
  unfold rightStep
  rw [BitVec.ushiftRight_eq_zero h, BitVec.xor_zero]

/-- By induction on how often the distance has to be doubled until it is the width. -/
theorem onto_of_twice {step : Nat → BitVec w → BitVec w} (htwice : ∀ k x, step k (step k x) = step (k + k) x)
    (hfar : ∀ k, w ≤ k → ∀ x, step k x = x) (n k : Nat) (h : w ≤ k * 2 ^ n) (y : BitVec w) : ∃ x, step k x = y := by
  induction n generalizing k with
  | zero =>
    rw [Nat.pow_zero, Nat.mul_one] at h
    exact ⟨y, hfar k h y⟩
  | succ n ih =>
    have hdouble : w ≤ (k + k) * 2 ^ n := by
      rw [Nat.pow_succ, Nat.mul_comm (2 ^ n), ← Nat.mul_assoc, Nat.mul_two] at h
      exact h
    obtain ⟨x, hx⟩ := ih (k + k) hdouble
    refine ⟨step k x, ?_⟩
    rw [htwice, hx]

theorem leftStep_onto {n k : Nat} (h : w ≤ k * 2 ^ n) (y : BitVec w) : ∃ x, leftStep k x = y :=
  onto_of_twice leftStep_twice (fun _ hk => leftStep_far hk) n k h y

theorem rightStep_onto {n k : Nat} (h : w ≤ k * 2 ^ n) (y : BitVec w) : ∃ x, rightStep k x = y :=
  onto_of_twice rightStep_twice (fun _ hk => rightStep_far hk) n k h y

end Kokage.Lib.Xorshift
