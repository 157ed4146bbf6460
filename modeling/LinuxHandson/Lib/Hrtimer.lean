import Mathlib.Data.List.Basic
import Mathlib.Algebra.Order.Ring.Int

/-!
# Nanosecond time and high-resolution timers

`ktime_t` is a signed 64-bit count of nanoseconds. `hrtimer_forward` moves the expiry of a timer by
whole intervals, so that it stays on the grid of its first expiry.
-/

namespace CLib

/-- Conversion to `s64`. -/
def s64 (x : Int) : Int := x.bmod (2 ^ 64)

/-- `S64_MAX`, which is also `KTIME_MAX` -/
def s64Max : Int := 2 ^ 63 - 1

/-- `ktime_sub(a, b)` -/
def ktimeSub (a b : Int) : Int := s64 (a - b)

/-- `ktime_add_us(t, us)` -/
def ktimeAddUs (t us : Int) : Int := s64 (t + us * 1000)

/-- The expiry of a timer after `hrtimer_forward`: behind `now`, by the smallest multiple of the
interval. -/
def hrtimerForward (expires now interval : Int) : Int :=
  if now < expires then expires else expires + ((now - expires) / interval + 1) * interval

variable {expires now interval t : Int}

theorem s64_of_range {x : Int} (h : -2 ^ 63 ≤ x) (h' : x ≤ s64Max) : s64 x = x := by
  rw [s64Max] at h'
  rw [s64, Int.bmod_def]
  split <;> omega

/-- A sum that wraps at each step is the sum, wrapped. -/
theorem s64_foldl (l : List Int) (acc : Int) :
    l.foldl (fun a x => s64 (a + x)) (s64 acc) = s64 (acc + l.sum) := by
  induction l generalizing acc with
  | nil => rw [List.foldl_nil, List.sum_nil, Int.add_zero]
  | cons x l ih =>
    have hwrap : s64 (s64 acc + x) = s64 (acc + x) := Int.bmod_add_bmod
    rw [List.foldl_cons, hwrap, ih, List.sum_cons, Int.add_assoc]

theorem lt_hrtimerForward (expires now : Int) (hi : 0 < interval) : now < hrtimerForward expires now interval := by
  unfold hrtimerForward
  split
  · assumption
  · have hmod := Int.emod_lt_of_pos (now - expires) hi
    have hdiv := Int.mul_ediv_add_emod (now - expires) interval
    rw [Int.add_mul, Int.one_mul, Int.mul_comm]
    omega

/-- When the next expiry is one interval after a time `t`. -/
theorem hrtimerForward_eq_add_iff (hi : 0 < interval) (ht : expires ≤ t) (h : t ≤ now) :
    hrtimerForward expires now interval = t + interval ↔
      interval ∣ t - expires ∧ now < t + interval := by
  rw [hrtimerForward, if_neg (by omega), Int.add_mul, Int.one_mul]
  constructor
  · intro heq
    have hmul : t - expires = interval * ((now - expires) / interval) := by
      rw [Int.mul_comm]
      omega
    have hmod := Int.emod_lt_of_pos (now - expires) hi
    have hdiv := Int.mul_ediv_add_emod (now - expires) interval
    exact ⟨⟨_, hmul⟩, by omega⟩
  · rintro ⟨⟨k, hk⟩, hlt⟩
    have hquot : (now - expires) / interval = k := by
      refine (Int.ediv_eq_iff_of_pos hi).mpr ⟨?_, ?_⟩
      · rw [Int.mul_comm]
        omega
      · rw [Int.mul_comm]
        omega
    rw [hquot, Int.mul_comm]
    omega

end CLib
