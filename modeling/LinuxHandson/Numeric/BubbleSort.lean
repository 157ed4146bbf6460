import LinuxHandson.Lib.CInt

/-!
# Two sorts of one array

The exchange loops that `profile_target.c` and `optimization_benchmark.c` both have, and the comparison
that the first of them gives to `qsort`. The bounds of the loops stay between 0 and `n`, so that their
arithmetic does not overflow; an access outside the array is undefined.
-/

namespace BubbleSort

open CLib

/-- The inner loop, with `k` rounds to go at `j`. -/
def innerLoop : Nat → Nat → List Int → Option (List Int)
  | 0, _, arr => some arr
  | k + 1, j, arr => do
    let x ← arr[j]?
    let y ← arr[j + 1]?
    if x > y then innerLoop k (j + 1) ((arr.set j y).set (j + 1) x) else innerLoop k (j + 1) arr

/-- The outer loop, with `k` rounds to go at `i`. -/
def outerLoop (n : Nat) : Nat → Nat → List Int → Option (List Int)
  | 0, _, arr => some arr
  | k + 1, i, arr => (innerLoop (n - i - 1) 0 arr).bind fun arr => outerLoop n k (i + 1) arr

/-- `bubble_sort` -/
def bubbleSort (arr : List Int) (n : Nat) : Option (List Int) := outerLoop n (n - 1) 0 arr

end BubbleSort

/-! ## The programs -/

namespace OptimizationBenchmark

/-- `bubble_sort` of `optimization_benchmark.c` -/
def bubbleSort (arr : List Int) (n : Nat) : Option (List Int) := BubbleSort.bubbleSort arr n

end OptimizationBenchmark

namespace ProfileTarget

open CLib

/-- `bubble_sort` of `profile_target.c` -/
def bubbleSort (arr : List Int) (n : Nat) : Option (List Int) := BubbleSort.bubbleSort arr n

/-- `qsort_cmp`, whose difference may overflow. -/
def qsortCmp (a b : Int) : Option Int := intArith (a - b)

/-- `sorting_benchmark`, for the numbers that `rand()` returns and a function `qsort`: both arrays after
they have been sorted. -/
def sortingBenchmark (qsort : (Int → Int → Option Int) → List Int → List Int) (rands : List Nat) :
    Option (List Int × List Int) :=
  let arr := rands.map fun r => ((r % 100000 : Nat) : Int)
  (bubbleSort arr arr.length).map fun arr1 => (arr1, qsort qsortCmp arr)

/-- The values that `sorting_benchmark` sorts. -/
def InRange (x : Int) : Prop := 0 ≤ x ∧ x ≤ 99999

/-- A comparison has a result for any two values in `P`, and by its sign they are in the order of the
numbers. -/
def OrdersOn (cmp : Int → Int → Option Int) (P : Int → Prop) : Prop :=
  ∀ x y, P x → P y → ∃ d, cmp x y = some d ∧ (d < 0 ↔ x < y) ∧ (d = 0 ↔ x = y) ∧ (0 < d ↔ y < x)

/-- What a comparison sort is to make of an array: the same values, none before one that the comparison
puts first. -/
structure SortedBy (cmp : Int → Int → Option Int) (arr out : List Int) : Prop where
  perm : out.Perm arr
  sorted : out.Pairwise fun x y => ∃ d, cmp x y = some d ∧ d ≤ 0

end ProfileTarget
