import LinuxHandson.Lib.Bubble
import LinuxHandson.Numeric.BubbleSort
import Mathlib.Algebra.Order.Ring.Int
import Mathlib.Data.List.Sort

/-!
# The loops sort, as `qsort` does

The inner loop is a sweep over the front of the array, after which one more element is in place. What the
loops leave is the only sorted permutation, and so what `qsort` leaves, where the difference that
`qsort_cmp` returns does not overflow.
-/

namespace BubbleSort

open CLib Bubble

variable {n k i : Nat} {x : Int} {l pre post back arr : List Int}

/-! ## The loops -/

/-- The inner loop is a sweep, with all its accesses within the array. -/
theorem innerLoop_eq (l pre post : List Int) (x : Int) :
    innerLoop l.length pre.length (pre ++ x :: (l ++ post)) =
      some (pre ++ (sweep x l).1 ++ (sweep x l).2 :: post) := by
  induction l generalizing pre x with
  | nil =>
    rw [sweep, List.append_nil]
    rfl
  | cons y l ih =>
    have hx : (pre ++ x :: (y :: l ++ post))[pre.length]? = some x := by simp
    have hy : (pre ++ x :: (y :: l ++ post))[pre.length + 1]? = some y := by simp
    rw [List.length_cons, innerLoop, hx, hy]
    simp only [Option.bind_eq_bind, Option.bind_some]
    by_cases hlt : y < x
    · have hset : ((pre ++ x :: (y :: l ++ post)).set pre.length y).set (pre.length + 1) x =
          (pre ++ [y]) ++ x :: (l ++ post) := by simp
      have hnext := ih (pre ++ [y]) x
      rw [List.length_append, List.length_singleton] at hnext
      rw [if_pos hlt, hset, hnext, sweep_swap hlt, List.append_assoc pre [y]]
      rfl
    · have hsame : pre ++ x :: (y :: l ++ post) = (pre ++ [x]) ++ y :: (l ++ post) := by simp
      have hnext := ih (pre ++ [x]) y
      rw [List.length_append, List.length_singleton] at hnext
      rw [if_neg hlt, hsame, hnext, sweep_keep hlt, List.append_assoc pre [x]]
      rfl

/-- The outer loop puts the elements of the front in place, one in each round. -/
theorem outerLoop_sorts (hn : k + 1 + i = n) (hl : l.length = k) (h : Placed (x :: l) back) :
    ∃ out, outerLoop n k i (x :: (l ++ back)) = some out ∧ out.Perm (x :: (l ++ back)) ∧
      out.Pairwise (· ≤ ·) := by
  induction k generalizing i x l back with
  | zero =>
    obtain rfl := List.eq_nil_of_length_eq_zero hl
    exact ⟨x :: back, rfl, List.Perm.refl _, h.sorted_singleton⟩
  | succ k ih =>
    have hbound : n - i - 1 = l.length := by omega
    have hlen := length_sweep x l
    have hperm := sweep_perm x l
    have hinner := innerLoop_eq l [] back x
    have hplaced := h.sweep
    rw [List.nil_append, List.nil_append, List.length_nil] at hinner
    rw [outerLoop, hbound, hinner, Option.bind_some]
    generalize (sweep x l).1 = front at hlen hperm hplaced
    generalize (sweep x l).2 = m at hperm hplaced
    match front, hlen with
    | [], hlen => rw [hl] at hlen; cases hlen
    | y :: front, hlen =>
      rw [List.length_cons, hl] at hlen
      obtain ⟨out, hout, hperm', hsorted⟩ := ih (i := i + 1) (by omega) (Nat.succ.inj hlen) hplaced
      refine ⟨out, hout, hperm'.trans ?_, hsorted⟩
      have happend := hperm.append_right back
      rwa [List.append_assoc, List.singleton_append] at happend

/-- `bubble_sort` leaves a sorted permutation of every array. -/
theorem bubbleSort_sorts (arr : List Int) :
    ∃ out, bubbleSort arr arr.length = some out ∧ out.Perm arr ∧ out.Pairwise (· ≤ ·) := by
  cases arr with
  | nil => exact ⟨[], rfl, List.Perm.refl _, List.Pairwise.nil⟩
  | cons x l =>
    have hloop := outerLoop_sorts (n := (x :: l).length) (i := 0) (x := x) (l := l) rfl rfl (placed_nil _)
    rwa [List.append_nil] at hloop

end BubbleSort

namespace ProfileTarget

open CLib

variable {arr out : List Int}

/-! ## The comparison -/

/-- On the values of the benchmark the difference does not overflow. -/
theorem qsortCmp_orders : OrdersOn qsortCmp InRange := by
  intro x y hx hy
  obtain ⟨hx0, hx1⟩ := hx
  obtain ⟨hy0, hy1⟩ := hy
  refine ⟨x - y, intArith_of_range (by omega) (by omega), ?_, ?_, ?_⟩ <;> omega

/-- What a sort by a comparison that has the order of the numbers leaves is sorted. -/
theorem SortedBy.pairwise_le {cmp : Int → Int → Option Int} {P : Int → Prop} (hcmp : OrdersOn cmp P)
    (h : SortedBy cmp arr out) (harr : ∀ x ∈ arr, P x) : out.Pairwise (· ≤ ·) := by
  have hout : ∀ x ∈ out, P x := fun x hx => harr x (h.perm.mem_iff.mp hx)
  refine h.sorted.imp_of_mem fun {x y} hx hy hle => ?_
  obtain ⟨d, hd, hle⟩ := hle
  obtain ⟨d', hd', -, -, hgt⟩ := hcmp x y (hout x hx) (hout y hy)
  obtain rfl := Option.some.inj (hd.symm.trans hd')
  omega

/-- Both functions of that name leave a sorted permutation of every array, and all their accesses are
within it. On the values of the benchmark the comparison of `qsort` has the order of the numbers, and
every correct sort by it leaves the same array. -/
theorem bubble_sorts_as_qsort (arr : List Int) :
    ∃ out, bubbleSort arr arr.length = some out ∧
      OptimizationBenchmark.bubbleSort arr arr.length = some out ∧
      out.Perm arr ∧ out.Pairwise (· ≤ ·) ∧ OrdersOn qsortCmp InRange ∧
      ((∀ x ∈ arr, InRange x) → ∀ out', SortedBy qsortCmp arr out' ↔ out' = out) := by
  obtain ⟨out, hout, hperm, hsorted⟩ := BubbleSort.bubbleSort_sorts arr
  refine ⟨out, hout, hout, hperm, hsorted, qsortCmp_orders, fun harr out' => ⟨fun h => ?_, ?_⟩⟩
  · exact (h.perm.trans hperm.symm).eq_of_pairwise' (h.pairwise_le qsortCmp_orders harr) hsorted
  · rintro rfl
    refine ⟨hperm, hsorted.imp_of_mem fun {x y} hx hy hle => ?_⟩
    obtain ⟨d, hd, -, -, hgt⟩ := qsortCmp_orders x y (harr x (hperm.mem_iff.mp hx))
      (harr y (hperm.mem_iff.mp hy))
    exact ⟨d, hd, by omega⟩

/-- The benchmark sorts its two arrays alike, if `qsort` sorts arrays on which the comparison is defined. -/
theorem sortingBenchmark_agrees (qsort : (Int → Int → Option Int) → List Int → List Int)
    (hqsort : ∀ arr : List Int, (∀ x ∈ arr, InRange x) → SortedBy qsortCmp arr (qsort qsortCmp arr))
    (rands : List Nat) :
    ∃ out, sortingBenchmark qsort rands = some (out, out) := by
  have harr : ∀ x ∈ rands.map fun r => ((r % 100000 : Nat) : Int), InRange x := by
    intro x hx
    obtain ⟨r, -, rfl⟩ := List.mem_map.mp hx
    unfold InRange
    omega
  obtain ⟨out, hout, hperm, hsorted⟩ := BubbleSort.bubbleSort_sorts
    (rands.map fun r => ((r % 100000 : Nat) : Int))
  have hq := hqsort (rands.map fun r => ((r % 100000 : Nat) : Int)) harr
  have heq := (hq.perm.trans hperm.symm).eq_of_pairwise' (hq.pairwise_le qsortCmp_orders harr) hsorted
  refine ⟨out, ?_⟩
  unfold sortingBenchmark bubbleSort
  simp only [hout, heq, Option.map_some]

end ProfileTarget
