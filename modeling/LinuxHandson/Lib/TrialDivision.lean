import Mathlib.Data.Nat.Prime.Defs
import Mathlib.Data.Nat.Prime.Basic

/-!
# Trial division by numbers next to a multiple of 6

A prime other than 2 and 3 is 1 or 5 modulo 6. So a number that neither 2 nor 3 divides is prime if it
has no divisor among `i` and `i + 2`, for the numbers `i` that are 5 modulo 6, up to its square root.
-/

namespace TrialDivision

variable {n i k : Nat}

/-- No number below `k` that is 5 modulo 6, and none 2 above such a one, divides `n`. -/
def Survives (n k : Nat) : Prop := ∀ i < k, i % 6 = 5 → ¬ i ∣ n ∧ ¬ i + 2 ∣ n

theorem survives_five (n : Nat) : Survives n 5 := fun i hi hmod => by omega

theorem Survives.next (h : Survives n k) (hk : ¬ k ∣ n) (hk' : ¬ k + 2 ∣ n) (hmod : k % 6 = 5) :
    Survives n (k + 6) := by
  intro i hi hi6
  rcases Nat.lt_trichotomy i k with hlt | rfl | hgt
  · exact h i hlt hi6
  · exact ⟨hk, hk'⟩
  · omega

/-- A prime that does not divide `n`, where 2 and 3 do not, is 1 or 5 modulo 6. -/
theorem prime_mod_six {p : Nat} (hp : p.Prime) (h2 : p ≠ 2) (h3 : p ≠ 3) : p % 6 = 1 ∨ p % 6 = 5 := by
  have htwo : ¬ 2 ∣ p := fun hdvd => h2 ((Nat.prime_dvd_prime_iff_eq Nat.prime_two hp).mp hdvd).symm
  have hthree : ¬ 3 ∣ p := fun hdvd =>
    h3 ((Nat.prime_dvd_prime_iff_eq Nat.prime_three hp).mp hdvd).symm
  omega

/-- A number that survives all trials up to its square root is prime. -/
theorem Survives.prime (h : Survives n k) (hn : 1 < n) (h2 : ¬ 2 ∣ n) (h3 : ¬ 3 ∣ n)
    (hk : n < k * k) : n.Prime := by
  by_contra hcomp
  have hp := Nat.minFac_prime (Nat.ne_of_gt hn)
  have hdvd := Nat.minFac_dvd n
  have hsq := Nat.minFac_sq_le_self (Nat.lt_trans Nat.zero_lt_one hn) hcomp
  rw [Nat.pow_two] at hsq
  have hlt : n.minFac < k := Nat.mul_self_lt_mul_self_iff.mp (Nat.lt_of_le_of_lt hsq hk)
  have hne2 : n.minFac ≠ 2 := fun heq => h2 (heq ▸ hdvd)
  have hne3 : n.minFac ≠ 3 := fun heq => h3 (heq ▸ hdvd)
  rcases prime_mod_six hp hne2 hne3 with h1 | h5
  · -- the least factor is 2 above the number tried
    have hge := hp.two_le
    have hback : n.minFac - 2 + 2 = n.minFac := Nat.sub_add_cancel hge
    have htried := (h (n.minFac - 2) (by omega) (by omega)).2
    rw [hback] at htried
    exact htried hdvd
  · exact (h n.minFac hlt h5).1 hdvd

end TrialDivision
