/-
  Kokage.Lib.Window — a sliding window kept by eager eviction.

  `slide` is one record: stamps older than `within` are taken from the front of the
  window, the new one is put at its back. For stamps that never decrease the window is
  what a look back from the last stamp would select (`foldl_slide`).
-/

import Mathlib.Data.List.Induction
import Mathlib.Data.List.Pairwise

namespace Kokage.Lib

def slide (within : Nat) (window : List Nat) (now : Nat) : List Nat :=
  window.dropWhile (fun front => decide (within < now - front)) ++ [now]

/-- Front eviction finds everything when what is evicted comes first. -/
theorem dropWhile_eq_filter {α : Type} {p : α → Bool} {xs : List α} (h : xs.Pairwise fun x y => p y = true → p x = true) :
    xs.dropWhile p = xs.filter fun x => !p x := by
  induction xs with
  | nil => rfl
  | cons x xs ih =>
    obtain ⟨hx, hxs⟩ := List.pairwise_cons.mp h
    by_cases hp : p x = true
    · rw [List.dropWhile_cons_of_pos hp, ih hxs, List.filter_cons_of_neg (by simp [hp])]
    · have hall : xs.filter (fun y => !p y) = xs := by
        refine List.filter_eq_self.mpr fun y hy => ?_
        have hy : ¬ p y = true := fun h => hp (hx y hy h)
        simpa using hy
      rw [List.dropWhile_cons_of_neg hp, List.filter_cons_of_pos (by simpa using hp), hall]

theorem slide_eq {within now : Nat} {window : List Nat} (hs : window.Pairwise (· ≤ ·)) (hn : ∀ t ∈ window, t ≤ now) :
    slide within window now = (window ++ [now]).filter fun t => decide (now ≤ t + within) := by
  have hmono : window.Pairwise fun x y => decide (within < now - y) = true → decide (within < now - x) = true := by
    refine hs.imp fun {x y} hxy h => ?_
    have h : within < now - y := by simpa using h
    have : within < now - x := by omega
    simpa using this
  have hkeep : window.filter (fun t => !decide (within < now - t)) = window.filter fun t => decide (now ≤ t + within) := by
    refine List.filter_congr fun t ht => ?_
    have := hn t ht
    rw [← decide_not, decide_eq_decide]
    omega
  have hlast : [now].filter (fun t => decide (now ≤ t + within)) = [now] := by simp
  rw [slide, dropWhile_eq_filter hmono, hkeep, List.filter_append, hlast]

/-- The window after a record is what lies within reach of the last stamp. -/
theorem foldl_slide {within last : Nat} {ts : List Nat} (hs : (ts ++ [last]).Pairwise (· ≤ ·)) :
    (ts ++ [last]).foldl (slide within) [] = (ts ++ [last]).filter fun t => decide (last ≤ t + within) := by
  induction ts using List.reverseRecOn generalizing last with
  | nil => simp [slide]
  | append_singleton ts now ih =>
    obtain ⟨hts, -, hle⟩ := List.pairwise_append.mp hs
    have hbound : ∀ t ∈ ts ++ [now], t ≤ last := fun t ht => hle t ht last (List.mem_singleton_self _)
    have hnow : now ≤ last := hbound now (List.mem_append_right _ (List.mem_singleton_self _))
    rw [List.foldl_append, ih hts]
    generalize ts ++ [now] = us at hts hbound
    show slide within (us.filter fun t => decide (now ≤ t + within)) last = _
    rw [slide_eq (hts.filter _) fun t ht => hbound t (List.mem_filter.mp ht).1, List.filter_append, List.filter_append,
      List.filter_filter]
    congr 1
    -- what was evicted before is out of reach now
    refine List.filter_congr fun t _ => ?_
    by_cases h : last ≤ t + within
    · have : now ≤ t + within := by omega
      simp [h, this]
    · simp [h]

end Kokage.Lib
