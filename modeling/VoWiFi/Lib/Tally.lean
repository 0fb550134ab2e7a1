import Mathlib.Algebra.BigOperators.Group.Finset.Piecewise
import Mathlib.Algebra.Order.BigOperators.Group.Finset
import Mathlib.Algebra.Order.Ring.Nat

/-!
# Sums over the places of a store

A store is a function from places to values, and each value has a weight. A write to one place changes
the sum of the weights by the difference at that place. A count is a sum of weights zero and one.
-/

namespace Tally

variable {ι α : Type} [DecidableEq ι]

/-- The sum of the weights of the values at some places. -/
def total (s : Finset ι) (w : α → ℕ) (f : ι → α) : ℕ := ∑ i ∈ s, w (f i)

variable {s : Finset ι} {w : α → ℕ} {f : ι → α} {i : ι}

theorem total_update (hi : i ∈ s) (a : α) :
    total s w (Function.update f i a) + w (f i) = total s w f + w a := by
  have hnew : total s w (Function.update f i a) = w a + ∑ j ∈ s \ {i}, w (f j) := by
    rw [← Finset.sum_update_of_mem hi (fun j => w (f j)) (w a)]
    exact Finset.sum_congr rfl fun j _ => Function.apply_update (fun _ => w) f i a j
  have hold : total s w f = w (f i) + ∑ j ∈ s \ {i}, w (f j) :=
    Finset.sum_eq_add_sum_sdiff_singleton_of_mem hi fun j => w (f j)
  omega

/-- A write that keeps the weight of its place keeps the sum. -/
theorem total_update_of_eq {a : α} (ha : w a = w (f i)) :
    total s w (Function.update f i a) = total s w f := by
  refine Finset.sum_congr rfl fun j _ => ?_
  by_cases hj : j = i
  · subst hj
    rw [Function.update_self, ha]
  · rw [Function.update_of_ne hj]

/-- A write to another place. -/
theorem total_update_of_notMem (hi : i ∉ s) (a : α) :
    total s w (Function.update f i a) = total s w f := by
  refine Finset.sum_congr rfl fun j hj => ?_
  have hne : j ≠ i := fun hji => hi (hji ▸ hj)
  rw [Function.update_of_ne hne]

omit [DecidableEq ι] in
theorem le_total (hi : i ∈ s) : w (f i) ≤ total s w f :=
  Finset.single_le_sum (f := fun j => w (f j)) (fun _ _ => Nat.zero_le _) hi

/-- The places below a bound, when the bound is raised by one. -/
theorem total_range_succ {f : ℕ → α} {n : ℕ} :
    total (Finset.range (n + 1)) w f = total (Finset.range n) w f + w (f n) :=
  Finset.sum_range_succ _ n

end Tally
