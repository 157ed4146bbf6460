import LinuxHandson.Numeric.MathlibBasic

/-!
# Signs of divisors and multiples

`mathlib_gcd` takes away the signs first, which only `INT_MIN` does not bear. `mathlib_lcm` keeps the
signs of its arguments, and so that of their product.
-/

namespace MathlibBasic

open CLib

variable {a b : Int} {x y : Nat}

/-! ## The greatest common divisor -/

theorem absolute_eq (h : a ≠ intMin) (hlow : intMin ≤ a) (hhigh : a < 2 ^ 31) :
    absolute a = some (a.natAbs : Int) := by
  have hmin : intMin = -2147483648 := rfl
  unfold absolute
  split
  · rw [Int.ofNat_natAbs_of_nonpos (by omega)]
    exact intArith_of_range (by omega) (by omega)
  · rw [Int.natAbs_of_nonneg (by omega)]

theorem absolute_intMin : absolute intMin = none := by decide

/-- Two numbers of type `int` whose greatest common divisor is `g`. -/
def HaveGcd (g : Nat) (s : Int × Int) : Prop :=
  ∃ u v : Nat, s = (↑u, ↑v) ∧ u < 2 ^ 31 ∧ v < 2 ^ 31 ∧ Nat.gcd u v = g

theorem gcdRound_spec {g : Nat} {s : Int × Int} (hs : HaveGcd g s) :
    (∃ r, gcdRound s = .done r ∧ r = (g : Int)) ∨
      ∃ s', gcdRound s = .again s' ∧ HaveGcd g s' ∧ s'.2.toNat < s.2.toNat := by
  obtain ⟨u, v, rfl, hu, hv, hgcd⟩ := hs
  by_cases hzero : v = 0
  · left
    subst hzero
    rw [Nat.gcd_zero_right] at hgcd
    exact ⟨u, rfl, by rw [hgcd]⟩
  · right
    have hpos := Nat.pos_of_ne_zero hzero
    have hlt := Nat.mod_lt u hpos
    refine ⟨(↑v, ↑(u % v)), ?_, ⟨v, u % v, rfl, hv, by omega, ?_⟩, ?_⟩
    · rw [gcdRound, if_pos (by simpa using hzero), intMod_natCast hpos hu]
      rfl
    · rw [Nat.gcd_comm, ← Nat.gcd_rec, Nat.gcd_comm, hgcd]
    · simp only [Int.toNat_natCast]
      exact hlt

/-- The loop is Euclid's algorithm. -/
theorem rounds_gcd (hx : x < 2 ^ 31) (hy : y < 2 ^ 31) :
    rounds gcdRound (y + 1) ((x : Int), (y : Int)) = .done (Nat.gcd x y : Int) := by
  obtain ⟨r, hr, rfl⟩ := rounds_done (fun s : Int × Int => s.2.toNat) (fun s => gcdRound_spec) (y + 1)
    ((x : Int), (y : Int)) ⟨x, y, rfl, hx, hy, rfl⟩ (Nat.lt_succ_self y)
  exact hr

/-- Where no argument is `INT_MIN` the function returns the greatest common divisor. -/
theorem mathlibGcd_eq (ha : a ≠ intMin) (hb : b ≠ intMin) (ha' : intMin ≤ a ∧ a < 2 ^ 31)
    (hb' : intMin ≤ b ∧ b < 2 ^ 31) : mathlibGcd a b = some (a.gcd b : Int) := by
  have hmin : intMin = -2147483648 := rfl
  have hloop := rounds_gcd (x := a.natAbs) (y := b.natAbs) (by omega) (by omega)
  rw [mathlibGcd, absolute_eq ha ha'.1 ha'.2, absolute_eq hb hb'.1 hb'.2, Option.bind_some,
    Option.bind_some, Int.toNat_natCast, hloop]
  rfl

theorem mathlibGcd_intMin (h : a = intMin ∨ b = intMin) : mathlibGcd a b = none := by
  rcases h with rfl | rfl
  · rw [mathlibGcd, absolute_intMin]
    rfl
  · rw [mathlibGcd, absolute_intMin]
    cases absolute a <;> rfl

/-- With `INT_MIN` the greatest common divisor fits unless it is that of `INT_MIN` and itself or 0. -/
theorem gcd_intMin_lt_iff (hb : intMin ≤ b ∧ b < 2 ^ 31) :
    intMin.gcd b < 2 ^ 31 ↔ ¬ (b = 0 ∨ b = intMin) := by
  have hmin : intMin = -2147483648 := rfl
  by_cases h : b = 0 ∨ b = intMin
  · refine iff_of_false ?_ (not_not.mpr h)
    rcases h with rfl | rfl <;> decide
  · refine iff_of_true ?_ h
    have hle : intMin.gcd b ≤ b.natAbs := Nat.gcd_le_right _ (by omega)
    omega

theorem gcdLaw_iff (ha : intMin ≤ a ∧ a < 2 ^ 31) (hb : intMin ≤ b ∧ b < 2 ^ 31) :
    GcdLaw a b ↔ Negatable a b := by
  by_cases hab : a ≠ intMin ∧ b ≠ intMin
  · exact iff_of_true (fun _ => mathlibGcd_eq hab.1 hab.2 ha hb) (Or.inl hab)
  · have hor : a = intMin ∨ b = intMin := by
      rwa [not_and_or, not_not, not_not] at hab
    rw [GcdLaw, mathlibGcd_intMin hor, Negatable]
    simp only [hab, false_or, reduceCtorEq, imp_false]
    rcases hor with rfl | rfl
    · rw [gcd_intMin_lt_iff hb, not_not]
      exact (and_iff_right (Or.inr rfl)).symm
    · rw [Int.gcd_comm, gcd_intMin_lt_iff ha, not_not]
      exact (and_iff_left (Or.inr rfl)).symm

/-! ## The least common multiple -/

/-- The quotient by the greatest common divisor times the other number is the least common multiple up
to its sign. -/
theorem lcm_eq_natAbs (ha : a ≠ 0) : a.lcm b = (a.tdiv (a.gcd b) * b).natAbs ∧
    (0 ≤ a * b ↔ 0 ≤ a.tdiv (a.gcd b) * b) := by
  have hpos : 0 < a.gcd b := Int.gcd_pos_of_ne_zero_left b ha
  obtain ⟨q, hq⟩ := Int.gcd_dvd_left (a := a) (b := b)
  have hdiv : a.tdiv (a.gcd b) = q := Int.tdiv_eq_of_eq_mul_right (by omega) hq
  rw [hdiv]
  constructor
  · have habs := congrArg Int.natAbs hq
    rw [Int.natAbs_mul, Int.natAbs_natCast] at habs
    have hprod : a.gcd b * a.lcm b = a.natAbs * b.natAbs := Nat.gcd_mul_lcm a.natAbs b.natAbs
    rw [Int.natAbs_mul]
    refine Nat.eq_of_mul_eq_mul_left hpos ?_
    rw [hprod, ← Nat.mul_assoc, ← habs]
  · have hprod : a * b = a.gcd b * (q * b) := by rw [← Int.mul_assoc, ← hq]
    rw [hprod]
    exact mul_nonneg_iff_of_pos_left (by omega)

/-- The function returns the quotient times the other number. -/
theorem mathlibLcm_eq (ha : a ≠ 0) (hb : b ≠ 0) (hfit : a.lcm b < 2 ^ 31) :
    mathlibLcm a b = some (a.tdiv (a.gcd b) * b) := by
  have hmin : intMin = -2147483648 := rfl
  have hne : a.lcm b ≠ 0 := Int.lcm_ne_zero ha hb
  have hale : a.natAbs ≤ a.lcm b := Nat.le_of_dvd (Nat.pos_of_ne_zero hne) (Int.natAbs_dvd_lcm_left a b)
  have hble : b.natAbs ≤ a.lcm b := Nat.le_of_dvd (Nat.pos_of_ne_zero hne) (Int.natAbs_dvd_lcm_right a b)
  have hgcd := mathlibGcd_eq (a := a) (b := b) (by omega) (by omega) ⟨by omega, by omega⟩
    ⟨by omega, by omega⟩
  have hpos : 0 < a.gcd b := Int.gcd_pos_of_ne_zero_left b ha
  have hquot := Int.natAbs_tdiv_le_natAbs a (a.gcd b)
  have hprod := (lcm_eq_natAbs (b := b) ha).1
  have hdiv : intDiv a (a.gcd b) = some (a.tdiv (a.gcd b)) := by
    rw [intDiv, if_neg (by omega)]
    exact intArith_of_range (by omega) (by omega)
  rw [mathlibLcm, if_neg (not_or.mpr ⟨ha, hb⟩), hgcd, Option.bind_some, hdiv, Option.bind_some]
  exact intArith_of_range (by omega) (by omega)

theorem lcmLaw_iff (a b : Int) : LcmLaw a b ↔ SameSign a b ∨ 2 ^ 31 ≤ a.lcm b := by
  by_cases hzero : a = 0 ∨ b = 0
  · have hlcm : a.lcm b = 0 := Int.lcm_eq_zero_iff.mpr hzero
    have hprod : a * b = 0 := Int.mul_eq_zero.mpr hzero
    refine iff_of_true (fun _ => ?_) (Or.inl (Int.le_of_eq hprod.symm))
    rw [mathlibLcm, if_pos hzero, hlcm]
    rfl
  · obtain ⟨ha, hb⟩ := not_or.mp hzero
    obtain ⟨habs, hsign⟩ := lcm_eq_natAbs (b := b) ha
    unfold LcmLaw SameSign
    by_cases hfit : a.lcm b < 2 ^ 31
    · rw [mathlibLcm_eq ha hb hfit, Option.some.injEq, hsign, or_iff_left (Nat.not_le.mpr hfit)]
      constructor
      · intro h
        have hvalue := h hfit
        omega
      · intro hnonneg _
        omega
    · exact iff_of_true (fun h => absurd h hfit) (Or.inr (Nat.not_lt.mp hfit))

/-! ## Both -/

/-- The greatest common divisor and the least common multiple of two numbers are returned, where they
fit in an `int`, without an overflow, if and only if the negation of no `INT_MIN` is asked for on the
way to a divisor that fits, and the numbers do not have opposite signs unless the multiple does not
fit. -/
theorem gcd_lcm_iff (a b : Int32) : GcdLaw a.toInt b.toInt ∧ LcmLaw a.toInt b.toInt ↔
    Negatable a.toInt b.toInt ∧ (SameSign a.toInt b.toInt ∨ 2 ^ 31 ≤ a.toInt.lcm b.toInt) := by
  rw [gcdLaw_iff ⟨a.le_toInt, a.toInt_lt⟩ ⟨b.le_toInt, b.toInt_lt⟩, lcmLaw_iff]

/-- For opposite signs the multiple is returned as a negative number, and the negation of `INT_MIN`
overflows. -/
theorem lcm_opposite_signs : mathlibLcm (-4) 6 = some (-12) ∧ ¬ LcmLaw (-4) 6 ∧
    mathlibGcd intMin 6 = none ∧ ¬ GcdLaw intMin 6 := by
  have hlcm : mathlibLcm (-4) 6 = some (-12) := by decide
  have hgcd : mathlibGcd intMin 6 = none := mathlibGcd_intMin (Or.inl rfl)
  refine ⟨hlcm, fun h => ?_, hgcd, fun h => ?_⟩
  · have hvalue := h (by decide)
    rw [hlcm] at hvalue
    exact absurd hvalue (by decide)
  · have hvalue := h (by decide)
    rw [hgcd] at hvalue
    cases hvalue

end MathlibBasic
