import Mathlib.Data.List.Perm.Basic
import Mathlib.Order.Lattice

/-!
# Sweeps of bubble sort

A sweep takes the greatest element of a list to its end. A list is sorted by a sweep over all of it, one
over all but the last element, and so on, as each sweep puts its greatest element before those that the
sweeps before it have put in place.
-/

namespace Bubble

variable {α : Type} [LinearOrder α]

/-- A sweep that has carried `x` so far: what it leaves behind, and what it has at the end. -/
def sweep : α → List α → List α × α
  | x, [] => ([], x)
  | x, y :: l =>
    if y < x then (y :: (sweep x l).1, (sweep x l).2) else (x :: (sweep y l).1, (sweep y l).2)

variable {x y : α} {l front back : List α}

theorem sweep_swap (h : y < x) (l : List α) :
    sweep x (y :: l) = (y :: (sweep x l).1, (sweep x l).2) := if_pos h

theorem sweep_keep (h : ¬ y < x) (l : List α) :
    sweep x (y :: l) = (x :: (sweep y l).1, (sweep y l).2) := if_neg h

theorem length_sweep (x : α) (l : List α) : (sweep x l).1.length = l.length := by
  fun_induction sweep x l with
  | case1 => rfl
  | case2 x y l h ih => rw [List.length_cons, List.length_cons, ih]
  | case3 x y l h ih => rw [List.length_cons, List.length_cons, ih]

theorem sweep_perm (x : α) (l : List α) : ((sweep x l).1 ++ [(sweep x l).2]).Perm (x :: l) := by
  fun_induction sweep x l with
  | case1 x => exact List.Perm.refl _
  | case2 x y l h ih => exact (ih.cons y).trans (List.Perm.swap x y l)
  | case3 x y l h ih => exact ih.cons x

/-- What a sweep has at the end is the greatest element. -/
theorem le_sweep (x : α) (l : List α) : ∀ z ∈ x :: l, z ≤ (sweep x l).2 := by
  fun_induction sweep x l with
  | case1 x =>
    intro z hz
    exact le_of_eq (List.mem_singleton.mp hz)
  | case2 x y l h ih =>
    rw [List.forall_mem_cons] at ih
    intro z hz
    rcases List.mem_cons.mp hz with rfl | hz
    · exact ih.1
    · rcases List.mem_cons.mp hz with rfl | hz
      · exact h.le.trans ih.1
      · exact ih.2 z hz
  | case3 x y l h ih =>
    intro z hz
    rcases List.mem_cons.mp hz with rfl | hz
    · exact (not_lt.mp h).trans (ih y List.mem_cons_self)
    · exact ih z hz

/-- The elements at the back are sorted, and none of them is less than one at the front. -/
structure Placed (front back : List α) : Prop where
  sorted : back.Pairwise (· ≤ ·)
  le : ∀ a ∈ front, ∀ b ∈ back, a ≤ b

theorem placed_nil (front : List α) : Placed front [] :=
  ⟨List.Pairwise.nil, fun _ _ _ hb => absurd hb List.not_mem_nil⟩

/-- A sweep over the front puts one more element in place. -/
theorem Placed.sweep (h : Placed (x :: l) back) : Placed (sweep x l).1 ((sweep x l).2 :: back) := by
  have hmem : ∀ a, a ∈ (Bubble.sweep x l).1 ++ [(Bubble.sweep x l).2] ↔ a ∈ x :: l := fun a =>
    (sweep_perm x l).mem_iff
  have hlast : (Bubble.sweep x l).2 ∈ x :: l :=
    (hmem _).mp (List.mem_append_right _ (List.mem_singleton_self _))
  have hfirst : ∀ a ∈ (Bubble.sweep x l).1, a ∈ x :: l := fun a ha =>
    (hmem a).mp (List.mem_append_left _ ha)
  refine ⟨List.pairwise_cons.mpr ⟨h.le _ hlast, h.sorted⟩, fun a ha b hb => ?_⟩
  rcases List.mem_cons.mp hb with rfl | hb
  · exact le_sweep x l a (hfirst a ha)
  · exact h.le a (hfirst a ha) b hb

/-- One element that is left at the front is in place. -/
theorem Placed.sorted_singleton (h : Placed [x] back) : (x :: back).Pairwise (· ≤ ·) :=
  List.pairwise_cons.mpr ⟨h.le x (List.mem_singleton_self x), h.sorted⟩

end Bubble
