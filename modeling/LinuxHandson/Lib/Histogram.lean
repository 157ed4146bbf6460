import Mathlib.Algebra.Order.Field.Basic
import Mathlib.Data.List.Basic

/-!
# Histograms

Elements are counted in an array of buckets, each under the index that a function gives it. An element
without an index, or with one that is outside the array, has no place. In a histogram of numbers `n`
buckets of one width are laid over the numbers from the least to the greatest, which is itself on the
upper bound of the last bucket.
-/

namespace Histogram

variable {α : Type}

/-- One more in bucket `k`. -/
def bump (counts : List Nat) (k : Int) : Option (List Nat) :=
  if 0 ≤ k ∧ k < counts.length then some (counts.modify k.toNat (· + 1)) else none

/-- Counts the elements of a list. -/
def count (index : α → Option Int) : List α → List Nat → Option (List Nat)
  | [], counts => some counts
  | a :: l, counts => (index a).bind fun k => (bump counts k).bind fun counts => count index l counts

/-- The element has a place among `n` buckets. -/
def Placed (index : α → Option Int) (n : Nat) (a : α) : Prop := ∃ k : Nat, index a = some (k : Int) ∧ k < n

variable {index : α → Option Int} {counts : List Nat} {l : List α} {a : α}

theorem bump_natCast {k : Nat} (h : k < counts.length) :
    bump counts k = some (counts.modify k (· + 1)) := by
  rw [bump, if_pos (by omega), Int.toNat_natCast]

theorem sum_modify {k : Nat} (h : k < counts.length) : (counts.modify k (· + 1)).sum = counts.sum + 1 := by
  induction counts generalizing k with
  | nil => cases h
  | cons c counts ih =>
    cases k with
    | zero => rw [List.modify_zero_cons, List.sum_cons, List.sum_cons, Nat.add_right_comm]
    | succ k =>
      rw [List.modify_succ_cons, List.sum_cons, List.sum_cons, ih (Nat.lt_of_succ_lt_succ h),
        Nat.add_assoc]

theorem count_cons {k : Nat} (hk : index a = some (k : Int)) (h : k < counts.length) (l : List α) :
    count index (a :: l) counts = count index l (counts.modify k (· + 1)) := by
  rw [count, hk, Option.bind_some, bump_natCast h, Option.bind_some]

/-- If every element has a place, each of them is counted once. -/
theorem exists_count (h : ∀ a ∈ l, Placed index counts.length a) :
    ∃ counts', count index l counts = some counts' ∧ counts'.length = counts.length ∧
      counts'.sum = counts.sum + l.length := by
  induction l generalizing counts with
  | nil => exact ⟨counts, rfl, rfl, rfl⟩
  | cons a l ih =>
    obtain ⟨⟨k, hk, hlt⟩, hl⟩ := List.forall_mem_cons.mp h
    rw [← List.length_modify (· + 1) counts k] at hl
    obtain ⟨counts', hc, hlen, hsum⟩ := ih hl
    refine ⟨counts', (count_cons hk hlt l).trans hc, hlen.trans (List.length_modify ..), ?_⟩
    rw [hsum, sum_modify hlt, List.length_cons]
    omega

/-! ## Buckets of one width -/

section Width

variable {K : Type} [Field K] [LinearOrder K] [IsStrictOrderedRing K] {lo hi x : K} {n : Nat}

theorem slot_nonneg (hlo : lo ≤ x) (hhi : x ≤ hi) : 0 ≤ (x - lo) / ((hi - lo) / n) :=
  div_nonneg (sub_nonneg.mpr hlo) (div_nonneg (sub_nonneg.mpr (hlo.trans hhi)) (Nat.cast_nonneg n))

/-- No number is more than `n` widths above the least. -/
theorem slot_le (h : lo < hi) (hhi : x ≤ hi) : (x - lo) / ((hi - lo) / n) ≤ n :=
  calc (x - lo) / ((hi - lo) / n)
      ≤ (hi - lo) / ((hi - lo) / n) := by
        refine div_le_div_of_nonneg_right (sub_le_sub_right hhi lo) ?_
        exact div_nonneg (sub_pos.mpr h).le (Nat.cast_nonneg n)
    _ = n := div_div_cancel₀ (sub_pos.mpr h).ne'

end Width

end Histogram
