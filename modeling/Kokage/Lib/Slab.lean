/-
  Kokage.Lib.Slab — a slab: values under reusable small keys.

  `get` is the content, `bound` a strict upper bound on the occupied keys (so the
  content can be walked in key order). Which vacant key an insertion takes is not the
  slab's business here: `insertAt` is given the key.
-/

import Mathlib.Logic.Function.Basic
import Mathlib.Data.List.Basic

namespace Kokage.Lib

structure Slab (α : Type) where
  get : Nat → Option α
  bound : Nat
  beyond : ∀ k, bound ≤ k → get k = none

namespace Slab

variable {α β : Type}

@[ext] theorem ext {s t : Slab α} (hg : ∀ k, s.get k = t.get k) (hb : s.bound = t.bound) : s = t := by
  obtain ⟨g, b, _⟩ := s
  obtain ⟨g', b', _⟩ := t
  have : g = g' := funext hg
  simp only at hb
  subst this hb
  rfl

def empty : Slab α := ⟨fun _ => none, 0, fun _ _ => rfl⟩

def insertAt (s : Slab α) (k : Nat) (v : α) : Slab α where
  get := Function.update s.get k (some v)
  bound := max s.bound (k + 1)
  beyond := by
    intro j hj
    have hne : j ≠ k := by omega
    rw [Function.update_of_ne hne]
    exact s.beyond j (by omega)

def remove (s : Slab α) (k : Nat) : Slab α where
  get := Function.update s.get k none
  bound := s.bound
  beyond := by
    intro j hj
    by_cases e : j = k
    · subst e; exact Function.update_self ..
    · rw [Function.update_of_ne e]; exact s.beyond j hj

/-- Edit the value under `k`, if there is one. -/
def modify (s : Slab α) (k : Nat) (f : α → α) : Slab α where
  get := Function.update s.get k ((s.get k).map f)
  bound := s.bound
  beyond := by
    intro j hj
    by_cases e : j = k
    · subst e; rw [Function.update_self, s.beyond j hj]; rfl
    · rw [Function.update_of_ne e]; exact s.beyond j hj

/-- Edit every value. -/
def map (s : Slab α) (f : Nat → α → β) : Slab β where
  get := fun k => (s.get k).map (f k)
  bound := s.bound
  beyond := by intro k hk; rw [s.beyond k hk]; rfl

/-- The occupied keys, in increasing order. -/
def keys (s : Slab α) : List Nat := (List.range s.bound).filter fun k => (s.get k).isSome

/-- The content in key order (`Slab::iter`). -/
def iter (s : Slab α) : List (Nat × α) := (List.range s.bound).filterMap fun k => (s.get k).map (Prod.mk k)

/-- How many values satisfy `p`. -/
def count (s : Slab α) (p : α → Bool) : Nat := (List.range s.bound).countP fun k => (s.get k).any p

/-! ## Reading back -/

@[simp] theorem get_empty (k : Nat) : (empty : Slab α).get k = none := rfl

@[simp] theorem get_insertAt_self (s : Slab α) (k : Nat) (v : α) : (s.insertAt k v).get k = some v :=
  Function.update_self ..

theorem get_insertAt_ne (s : Slab α) {j k : Nat} (v : α) (h : j ≠ k) : (s.insertAt k v).get j = s.get j :=
  Function.update_of_ne h ..

@[simp] theorem get_remove_self (s : Slab α) (k : Nat) : (s.remove k).get k = none :=
  Function.update_self ..

theorem get_remove_ne (s : Slab α) {j k : Nat} (h : j ≠ k) : (s.remove k).get j = s.get j :=
  Function.update_of_ne h ..

@[simp] theorem get_modify_self (s : Slab α) (k : Nat) (f : α → α) : (s.modify k f).get k = (s.get k).map f :=
  Function.update_self ..

theorem get_modify_ne (s : Slab α) {j k : Nat} (f : α → α) (h : j ≠ k) : (s.modify k f).get j = s.get j :=
  Function.update_of_ne h ..

theorem get_modify (s : Slab α) (j k : Nat) (f : α → α) :
    (s.modify k f).get j = if j = k then (s.get j).map f else s.get j := by
  by_cases h : j = k
  · subst h; simp
  · simp [h, get_modify_ne]

theorem get_remove (s : Slab α) (j k : Nat) : (s.remove k).get j = if j = k then none else s.get j := by
  by_cases h : j = k
  · subst h; simp
  · simp [h, get_remove_ne]

theorem get_insertAt (s : Slab α) (j k : Nat) (v : α) :
    (s.insertAt k v).get j = if j = k then some v else s.get j := by
  by_cases h : j = k
  · subst h; simp
  · simp [h, get_insertAt_ne]

@[simp] theorem get_map (s : Slab α) (f : Nat → α → β) (k : Nat) : (s.map f).get k = (s.get k).map (f k) := rfl

theorem lt_bound {s : Slab α} {k : Nat} {v : α} (h : s.get k = some v) : k < s.bound := by
  by_contra hk
  rw [s.beyond k (by omega)] at h
  cases h

theorem mem_keys {s : Slab α} {k : Nat} : k ∈ s.keys ↔ ∃ v, s.get k = some v := by
  simp only [keys, List.mem_filter, List.mem_range, Option.isSome_iff_exists]
  constructor
  · rintro ⟨-, h⟩; exact h
  · rintro ⟨v, h⟩; exact ⟨lt_bound h, v, h⟩

theorem mem_iter {s : Slab α} {k : Nat} {v : α} : (k, v) ∈ s.iter ↔ s.get k = some v := by
  simp only [iter, List.mem_filterMap, List.mem_range, Option.map_eq_some_iff, Prod.mk.injEq]
  constructor
  · rintro ⟨j, -, w, hw, rfl, rfl⟩; exact hw
  · intro h; exact ⟨k, lt_bound h, v, h, rfl, rfl⟩

/-! ## Counting -/

theorem countP_range_extend {f : Nat → Bool} {n m : Nat} (hnm : n ≤ m) (h : ∀ k, n ≤ k → f k = false) :
    (List.range m).countP f = (List.range n).countP f := by
  induction m with
  | zero => simp_all
  | succ m ih =>
    by_cases e : n = m + 1
    · rw [e]
    · rw [List.range_succ, List.countP_append, ih (by omega), List.countP_singleton, h m (by omega)]
      simp

theorem countP_range_point {f g : Nat → Bool} {k : Nat} : ∀ {n : Nat}, k < n → (∀ j, j ≠ k → g j = f j) →
    (List.range n).countP g + (f k).toNat = (List.range n).countP f + (g k).toNat := by
  intro n hk h
  induction n with
  | zero => omega
  | succ n ih =>
    simp only [List.range_succ, List.countP_append, List.countP_singleton]
    by_cases e : k = n
    · subst e
      have : (List.range k).countP g = (List.range k).countP f := by
        apply List.countP_congr
        intro j hj
        rw [h j (by have := List.mem_range.mp hj; omega)]
      rw [this]
      cases f k <;> cases g k <;> simp
    · have := ih (by omega)
      rw [h n (fun e' => e e'.symm)]
      omega

/-- The count over any range that covers the slab. -/
theorem count_eq (s : Slab α) (p : α → Bool) {m : Nat} (hm : s.bound ≤ m) :
    s.count p = (List.range m).countP fun j => (s.get j).any p :=
  (countP_range_extend hm fun j hj => by rw [s.beyond j hj]; rfl).symm

/-- Changing the value under one key changes the count by what that value contributed. -/
theorem count_point {s t : Slab α} (p : α → Bool) (k : Nat) (h : ∀ j, j ≠ k → t.get j = s.get j) :
    t.count p + ((s.get k).any p).toNat = s.count p + ((t.get k).any p).toNat := by
  rw [count_eq s p (m := max (max s.bound t.bound) (k + 1)) (by omega),
    count_eq t p (m := max (max s.bound t.bound) (k + 1)) (by omega)]
  have hk : k < max (max s.bound t.bound) (k + 1) := by omega
  exact countP_range_point (f := fun j => (s.get j).any p) (g := fun j => (t.get j).any p) hk
    fun j hj => by rw [h j hj]

theorem count_congr {s t : Slab α} {p : α → Bool} (h : ∀ k, (t.get k).any p = (s.get k).any p) :
    t.count p = s.count p := by
  rw [count_eq s p (m := max s.bound t.bound) (by omega), count_eq t p (m := max s.bound t.bound) (by omega)]
  exact List.countP_congr fun j _ => by rw [h j]

end Slab

end Kokage.Lib
