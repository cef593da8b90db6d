import Mathlib.Algebra.BigOperators.Group.Finset.Basic
import Mathlib.Algebra.BigOperators.Group.Finset.Piecewise
import Mathlib.Algebra.Order.BigOperators.Group.Finset
import Mathlib.Data.Fintype.Basic

/-!
# Totals over threads

The sum of a weight over the places of finitely many threads, and how it changes
when one of them moves.
-/

namespace HyperPlotter.Foundation

variable {ι A : Type} [Fintype ι] (weight : A → Nat) (places : ι → A)

/-- The weights of all threads together. -/
def total : Nat := ∑ i, weight (places i)

/-- No thread weighs anything. -/
theorem total_eq_zero : total weight places = 0 ↔ ∀ i, weight (places i) = 0 := by
  unfold total
  rw [Finset.sum_eq_zero_iff]
  exact ⟨fun none i => none i (Finset.mem_univ i), fun none i _ => none i⟩

variable [DecidableEq ι]

/-- One thread moves. -/
theorem total_update (i : ι) (a : A) :
    total weight (Function.update places i a) + weight (places i) =
      total weight places + weight a := by
  have moved : (fun j => weight (Function.update places i a j)) =
      Function.update (fun j => weight (places j)) i (weight a) := by
    funext j
    by_cases same : j = i
    · subst same
      simp
    · simp [same]
  have rest := Finset.add_sum_erase Finset.univ (fun j => weight (places j)) (Finset.mem_univ i)
  unfold total
  rw [moved, Finset.sum_update_of_mem (Finset.mem_univ i), ← rest, Finset.sdiff_singleton_eq_erase]
  omega

end HyperPlotter.Foundation
