import Mathlib

/-!
# Cellos.Lib.Tally

Adding up what the callers of a concurrent program are in the middle of.

A system of `n` callers keeps one local state for each of them.  `tally weight states` is
the total weight of those states, and one caller's move changes it by the difference of the
two weights (`tally_update`).
-/

namespace Cellos.Lib

open Finset Function

variable {n : Nat} {φ : Type*} {weight : φ → Nat} {states : Fin n → φ}

/-- The total weight of the callers' states. -/
def tally (weight : φ → Nat) (states : Fin n → φ) : Nat := ∑ c, weight (states c)

theorem tally_update (weight : φ → Nat) (states : Fin n → φ) (c : Fin n) (a : φ) :
    tally weight (update states c a) + weight (states c) = tally weight states + weight a := by
  have hrest : ∑ d ∈ univ.erase c, weight (update states c a d) =
      ∑ d ∈ univ.erase c, weight (states d) := by
    refine sum_congr rfl fun d hd => ?_
    rw [update_of_ne (ne_of_mem_erase hd)]
  unfold tally
  rw [← add_sum_erase univ _ (mem_univ c), ← add_sum_erase univ (fun d => weight (states d))
    (mem_univ c), hrest, update_self]
  omega

theorem weight_le_tally (weight : φ → Nat) (states : Fin n → φ) (c : Fin n) :
    weight (states c) ≤ tally weight states :=
  single_le_sum (f := fun d => weight (states d)) (fun _ _ => Nat.zero_le _) (mem_univ c)

/-- Callers of weight at most one number at most `n`. -/
theorem tally_le (h : ∀ a, weight a ≤ 1) : tally weight states ≤ n := by
  calc tally weight states ≤ ∑ _c : Fin n, 1 := sum_le_sum fun c _ => h (states c)
    _ = n := by simp

theorem tally_eq_zero (h : ∀ c, weight (states c) = 0) : tally weight states = 0 :=
  sum_eq_zero fun c _ => h c

end Cellos.Lib
