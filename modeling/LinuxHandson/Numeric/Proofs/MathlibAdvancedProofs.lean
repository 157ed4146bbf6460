import LinuxHandson.Lib.TrialDivision
import LinuxHandson.Numeric.MathlibAdvanced
import Mathlib.NumberTheory.LucasLehmer

/-!
# Primes near the top of `int`

A number that has survived the trial of 46337 and 46339 is prime, as the square of the next candidate is
beyond `int`. The function has answered before for all numbers but the primes from `46337 * 46337` on,
for which it goes on to that square.
-/

namespace MathlibAdvanced

open CLib TrialDivision

variable {m i : Nat}

/-! ## One round -/

theorem intMod_zero_iff {d : Nat} (hd : 0 < d) (hm : m < 2 ^ 31) :
    ∃ r, intMod m d = some r ∧ (r = 0 ↔ d ∣ m) := by
  refine ⟨_, intMod_natCast hd hm, ?_⟩
  rw [Nat.dvd_iff_mod_eq_zero]
  omega

/-- A round whose arithmetic is in range. -/
theorem round_eq (hm : m < 2 ^ 31) (hi : 5 ≤ i) (hi' : i ≤ lastDivisor) :
    isPrimeRound m i =
      if i * i ≤ m then if i ∣ m ∨ i + 2 ∣ m then .done 0 else .again ((i + 6 : Nat) : Int)
      else .done 1 := by
  have hsq : i * i ≤ 46337 * 46337 := Nat.mul_self_le_mul_self hi'
  have hlast : lastDivisor = 46337 := rfl
  obtain ⟨r, hr, hzero⟩ := @intMod_zero_iff m i (by omega) hm
  obtain ⟨r', hr', hzero'⟩ := @intMod_zero_iff m (i + 2) (by omega) hm
  have hsquare : intArith ((i : Int) * i) = some ((i * i : Nat) : Int) := by
    rw [← Int.natCast_mul]
    exact intArith_natCast (by omega)
  have htwo : intArith ((i : Int) + 2) = some ((i + 2 : Nat) : Int) :=
    intArith_of_range (by omega) (by omega)
  have hsix : intArith ((i : Int) + 6) = some ((i + 6 : Nat) : Int) :=
    intArith_of_range (by omega) (by omega)
  rw [isPrimeRound, hsquare, Option.bind_some, hr, Option.bind_some, htwo, Option.bind_some, hr',
    Option.bind_some, hsix]
  simp only [Int.ofNat_le, hzero, hzero']
  by_cases hle : i * i ≤ m
  · rw [if_pos hle, if_pos hle]
    by_cases hdvd : i ∣ m
    · rw [if_pos hdvd, if_pos (Or.inl hdvd)]
      rfl
    · rw [if_neg hdvd]
      by_cases hdvd' : i + 2 ∣ m
      · rw [if_pos hdvd', if_pos (Or.inr hdvd')]
        rfl
      · rw [if_neg hdvd', if_neg (not_or.mpr ⟨hdvd, hdvd'⟩)]
        rfl
  · rw [if_neg hle, if_neg hle]
    rfl

theorem round_overflow : isPrimeRound m ((lastDivisor + 6 : Nat) : Int) = .undefined := by
  have hsquare : intArith (((lastDivisor + 6 : Nat) : Int) * ((lastDivisor + 6 : Nat) : Int)) = none :=
    intArith_none (by decide)
  rw [isPrimeRound, hsquare]
  rfl

/-! ## The loop -/

/-- The numbers below `i` have been tried, and `i` is one to try. -/
structure Tried (m : Nat) (i : Nat) : Prop where
  mod : i % 6 = 5
  le : i ≤ lastDivisor
  survives : Survives m i

theorem tried_five (m : Nat) : Tried m 5 := ⟨rfl, by decide, survives_five m⟩

theorem Tried.five_le (h : Tried m i) : 5 ≤ i := by
  have hmod := h.mod
  omega

/-- What survives the last trial is prime. -/
theorem prime_of_last (h : Survives m (lastDivisor + 6)) (hm : m < 2 ^ 31) (h1 : 1 < m)
    (h2 : ¬ 2 ∣ m) (h3 : ¬ 3 ∣ m) : m.Prime :=
  Survives.prime h h1 h2 h3 (Nat.lt_trans hm (by decide))

theorem Tried.next (h : Tried m i) (hdvd : ¬ (i ∣ m ∨ i + 2 ∣ m)) (hi : i + 6 ≤ lastDivisor) :
    Tried m (i + 6) := by
  rw [not_or] at hdvd
  exact ⟨by have := h.mod; omega, hi, h.survives.next hdvd.1 hdvd.2 h.mod⟩

theorem add_six_le (h : Tried m i) (hne : i ≠ lastDivisor) : i + 6 ≤ lastDivisor := by
  have hmod := h.mod
  have hle := h.le
  have hlast : lastDivisor = 46337 := rfl
  omega

theorem add_six_le_of_square (hi : 5 ≤ i) (hle : i * i ≤ m) : i + 6 ≤ m := by
  have hmul := Nat.mul_le_mul_right i hi
  omega

theorem not_dvd_of_prime (hp : m.Prime) (hi : 5 ≤ i) (hle : i * i ≤ m) : ¬ (i ∣ m ∨ i + 2 ∣ m) := by
  have hlt := add_six_le_of_square hi hle
  rintro (hd | hd)
  · rcases (Nat.dvd_prime hp).mp hd with h | h
    · omega
    · omega
  · rcases (Nat.dvd_prime hp).mp hd with h | h
    · omega
    · omega

/-- A candidate that the loop may come to, up to the one whose square overflows. -/
def Candidate (s : Int) : Prop := ∃ i : Nat, s = i ∧ 5 ≤ i ∧ i % 6 = 5 ∧ i ≤ lastDivisor + 6

theorem round_prime {s : Int} (hm : m < 2 ^ 31) (hp : m.Prime) (hge : lastDivisor * lastDivisor ≤ m)
    (hs : Candidate s) : isPrimeRound m s = .undefined ∨
      ∃ s', isPrimeRound m s = .again s' ∧ Candidate s' ∧ m + 1 - s'.toNat < m + 1 - s.toNat := by
  obtain ⟨i, rfl, h5, hmod, hle⟩ := hs
  have hlast : lastDivisor = 46337 := rfl
  by_cases hi : i ≤ lastDivisor
  · right
    have hsq : i * i ≤ m := Nat.le_trans (Nat.mul_self_le_mul_self hi) hge
    have hlt := add_six_le_of_square h5 hsq
    rw [round_eq hm h5 hi, if_pos hsq, if_neg (not_dvd_of_prime hp h5 hsq)]
    refine ⟨_, rfl, ⟨i + 6, rfl, by omega, by omega, by omega⟩, ?_⟩
    simp only [Int.toNat_natCast]
    omega
  · left
    obtain rfl : i = lastDivisor + 6 := by omega
    exact round_overflow

/-- For a prime from the square of the last candidate on, the loop goes on to the square behind it. -/
theorem rounds_overflow (hm : m < 2 ^ 31) (hp : m.Prime) (hge : lastDivisor * lastDivisor ≤ m) :
    rounds (isPrimeRound m) m 5 = .undefined := by
  refine rounds_undefined (fun s : Int => m + 1 - s.toNat) (fun s => round_prime hm hp hge) m 5
    ⟨5, rfl, by decide, rfl, by decide⟩ ?_
  have h5 : 5 ≤ m := Nat.le_trans (by decide) hge
  show m + 1 - 5 < m
  omega

section Loop

variable (hm : m < 2 ^ 31) (h2 : ¬ 2 ∣ m) (h3 : ¬ 3 ∣ m)

include hm h2 h3

theorem round_answer {s : Int} (h5 : 5 ≤ m) (hcond : m < lastDivisor * lastDivisor ∨ ¬ m.Prime)
    (hs : ∃ i : Nat, s = i ∧ Tried m i) :
    (∃ r, isPrimeRound m s = .done r ∧ r = if m.Prime then 1 else 0) ∨
      ∃ s', isPrimeRound m s = .again s' ∧ (∃ i : Nat, s' = i ∧ Tried m i) ∧
        m + 1 - s'.toNat < m + 1 - s.toNat := by
  obtain ⟨i, rfl, h⟩ := hs
  rw [round_eq hm h.five_le h.le]
  by_cases hle : i * i ≤ m
  · rw [if_pos hle]
    have hlt := add_six_le_of_square h.five_le hle
    by_cases hdvd : i ∣ m ∨ i + 2 ∣ m
    · left
      have hcomp : ¬ m.Prime := fun hp => not_dvd_of_prime hp h.five_le hle hdvd
      rw [if_pos hdvd, if_neg hcomp]
      exact ⟨0, rfl, rfl⟩
    · right
      rw [if_neg hdvd]
      -- at the last candidate the number would be prime, and it is not below the square
      have hroom : i + 6 ≤ lastDivisor := by
        refine add_six_le h fun heq => ?_
        have hdvd' := not_or.mp hdvd
        have hsurv := h.survives.next hdvd'.1 hdvd'.2 h.mod
        rw [heq] at hsurv hle
        exact hcond.elim (fun hsmall => Nat.not_le.mpr hsmall hle) fun hcomp =>
          hcomp (prime_of_last hsurv hm (by omega) h2 h3)
      refine ⟨_, rfl, ⟨i + 6, rfl, h.next hdvd hroom⟩, ?_⟩
      simp only [Int.toNat_natCast]
      omega
  · left
    rw [if_neg hle, if_pos (h.survives.prime (by omega) h2 h3 (Nat.not_le.mp hle))]
    exact ⟨1, rfl, rfl⟩

/-- Unless the number is a prime from `46337 * 46337` on, the loop ends with the right answer. -/
theorem rounds_answer (h5 : 5 ≤ m) (hcond : m < lastDivisor * lastDivisor ∨ ¬ m.Prime) :
    rounds (isPrimeRound m) m 5 = .done (if m.Prime then 1 else 0) := by
  have hmeasure : m + 1 - 5 < m := by omega
  obtain ⟨r, hr, rfl⟩ := rounds_done (fun s : Int => m + 1 - s.toNat)
    (fun s => round_answer hm h2 h3 h5 hcond) m 5 ⟨5, rfl, tried_five m⟩ hmeasure
  exact hr

end Loop

/-! ## The function -/

theorem tmod_eq_zero_iff {d : Nat} : (m : Int).tmod d = 0 ↔ d ∣ m := by
  rw [← Int.ofNat_tmod, Nat.dvd_iff_mod_eq_zero]
  exact Int.natCast_eq_zero

theorem mathlibIsPrime_small {n : Int} (h : n ≤ 3) : TellsPrime n := by
  unfold TellsPrime mathlibIsPrime
  by_cases h1 : n ≤ 1
  · have hnot : ¬ n.toNat.Prime := fun hp => by
      have := hp.two_le
      omega
    rw [if_pos h1, if_neg hnot]
  · rw [if_neg h1, if_pos h]
    obtain rfl | rfl : n = 2 ∨ n = 3 := by omega
    · rw [if_pos (show Nat.Prime (Int.toNat 2) from Nat.prime_two)]
    · rw [if_pos (show Nat.Prime (Int.toNat 3) from Nat.prime_three)]

theorem mathlibIsPrime_factor (h4 : 4 ≤ m) (hdvd : 2 ∣ m ∨ 3 ∣ m) :
    mathlibIsPrime m = .done 0 ∧ ¬ m.Prime := by
  have htmod : (m : Int).tmod 2 = 0 ∨ (m : Int).tmod 3 = 0 :=
    hdvd.imp tmod_eq_zero_iff.mpr tmod_eq_zero_iff.mpr
  refine ⟨?_, fun hp => ?_⟩
  · rw [mathlibIsPrime, if_neg (by omega), if_neg (by omega), if_pos htmod]
  · rcases hdvd with hd | hd
    · rcases (Nat.dvd_prime hp).mp hd with h | h <;> omega
    · rcases (Nat.dvd_prime hp).mp hd with h | h <;> omega

theorem mathlibIsPrime_loop (h4 : 4 ≤ m) (h2 : ¬ 2 ∣ m) (h3 : ¬ 3 ∣ m) :
    mathlibIsPrime m = rounds (isPrimeRound m) m 5 := by
  have htmod : ¬ ((m : Int).tmod 2 = 0 ∨ (m : Int).tmod 3 = 0) :=
    not_or.mpr ⟨fun h => h2 (tmod_eq_zero_iff.mp h), fun h => h3 (tmod_eq_zero_iff.mp h)⟩
  rw [mathlibIsPrime, if_neg (by omega), if_neg (by omega), if_neg htmod, Int.toNat_natCast]

/-- The function is undefined for the primes from the square of the last candidate on. -/
theorem mathlibIsPrime_overflow (hm : m < 2 ^ 31) (hp : m.Prime) (hge : lastDivisor * lastDivisor ≤ m) :
    mathlibIsPrime m = .undefined := by
  have hbig : 4 ≤ m := Nat.le_trans (by decide) hge
  have hnot : ∀ d, d ∣ m → d = 1 ∨ d = m := fun d => (Nat.dvd_prime hp).mp
  have h2 : ¬ 2 ∣ m := fun hd => by
    have := hnot 2 hd
    omega
  have h3 : ¬ 3 ∣ m := fun hd => by
    have := hnot 3 hd
    omega
  rw [mathlibIsPrime_loop hbig h2 h3]
  exact rounds_overflow hm hp hge

/-- The function tells whether a number is prime, with all its arithmetic within `int`, if and only if
the number is below `46337 * 46337` or no prime. -/
theorem is_prime_iff (n : Int32) : TellsPrime n.toInt ↔
    n.toInt < lastDivisor * lastDivisor ∨ ¬ n.toInt.toNat.Prime := by
  have hrange := n.toInt_lt
  by_cases h4 : n.toInt ≤ 3
  · refine iff_of_true (mathlibIsPrime_small h4) (Or.inl ?_)
    exact Int.lt_of_le_of_lt h4 (by decide)
  · obtain ⟨m, hm⟩ := Int.eq_ofNat_of_zero_le (show 0 ≤ n.toInt by omega)
    rw [hm] at hrange h4 ⊢
    have hlt : m < 2 ^ 31 := by omega
    have hbig : 4 ≤ m := by omega
    rw [TellsPrime, Int.toNat_natCast]
    by_cases hdvd : 2 ∣ m ∨ 3 ∣ m
    · obtain ⟨hzero, hcomp⟩ := mathlibIsPrime_factor hbig hdvd
      rw [hzero, if_neg hcomp]
      exact iff_of_true rfl (Or.inr hcomp)
    · rw [not_or] at hdvd
      by_cases hcond : m < lastDivisor * lastDivisor ∨ ¬ m.Prime
      · rw [mathlibIsPrime_loop hbig hdvd.1 hdvd.2]
        refine iff_of_true (rounds_answer hlt hdvd.1 hdvd.2 (by omega) hcond) ?_
        exact hcond.imp_left fun h => by exact_mod_cast h
      · rw [not_or, not_not, Nat.not_lt] at hcond
        rw [mathlibIsPrime_overflow hlt hcond.2 hcond.1]
        refine iff_of_false (fun h => by cases h) ?_
        rw [not_or, not_not]
        exact ⟨fun h => Nat.not_lt.mpr hcond.1 (by exact_mod_cast h), hcond.2⟩

/-- `INT_MAX` is prime. -/
theorem prime_intMax : Nat.Prime 2147483647 :=
  lucas_lehmer_sufficiency 31 (by norm_num) (by norm_num)

/-- For `INT_MAX` the function goes on to `46343 * 46343`, which overflows. -/
theorem is_prime_intMax : mathlibIsPrime 2147483647 = .undefined ∧ ¬ TellsPrime 2147483647 := by
  have hund : mathlibIsPrime 2147483647 = .undefined :=
    mathlibIsPrime_overflow (by decide) prime_intMax (by decide)
  refine ⟨hund, fun h => ?_⟩
  rw [TellsPrime, hund] at h
  cases h

end MathlibAdvanced
