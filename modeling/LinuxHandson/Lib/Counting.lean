import Mathlib.Algebra.BigOperators.Group.Finset.Piecewise
import Mathlib.Data.Fintype.Card

/-!
# Sums and counts over the threads

What becomes of a sum over all threads, and of the number of threads with some property, when one
thread moves.
-/

namespace CLib

variable {ι α M : Type} [Fintype ι] [DecidableEq ι]

/-- A sum over all threads, when the value of one thread changes. -/
theorem sum_update [AddCommMonoid M] (f : ι → α → M) (g : ι → α) (i : ι) (a : α) :
    ∑ j, f j (Function.update g i a j) + f i (g i) = ∑ j, f j (g j) + f i a := by
  have hrest : ∑ j ∈ Finset.univ.erase i, f j (Function.update g i a j) =
      ∑ j ∈ Finset.univ.erase i, f j (g j) := by
    refine Finset.sum_congr rfl ?_
    intro j hj
    rw [Function.update_of_ne (Finset.ne_of_mem_erase hj)]
  rw [← Finset.add_sum_erase _ _ (Finset.mem_univ i), hrest, Function.update_self,
    ← Finset.add_sum_erase _ (fun j => f j (g j)) (Finset.mem_univ i), add_right_comm,
    add_comm (f i a), add_right_comm, add_assoc]

/-- The number of threads whose value has a property, when one value changes. -/
theorem card_filter_update (f : ι → α) (P : α → Prop) [DecidablePred P] (i : ι) (a : α) :
    (Finset.univ.filter fun j => P (Function.update f i a j)).card + (if P (f i) then 1 else 0) =
      (Finset.univ.filter fun j => P (f j)).card + if P a then 1 else 0 := by
  rw [Finset.card_filter, Finset.card_filter]
  exact sum_update (fun _ x => if P x then 1 else 0) f i a

end CLib
