import Mathlib.Data.List.Basic
import Mathlib.Data.Nat.ModEq

/-!
# One's-complement arithmetic

Addition of numbers up to `m` with the carry added in at the low end. Such a sum is the plain sum modulo
`m`, where `m` itself stands for every multiple of `m` but zero.
-/

namespace CLib

/-- One's-complement addition. -/
def onesAdd (m a b : Nat) : Nat := if a + b ≤ m then a + b else a + b - m

/-- The one's-complement sum of some words. -/
def onesSum (m : Nat) (ws : List Nat) : Nat := ws.foldl (onesAdd m) 0

/-- The part of a number above `m` added to the rest. -/
def carryFold (m n : Nat) : Nat := n / (m + 1) + n % (m + 1)

/-- The word that stands for a plain sum. -/
def onesRep (m n : Nat) : Nat := if n = 0 then 0 else (n - 1) % m + 1

variable {m n a b x : Nat}

theorem onesRep_eq_zero : onesRep m n = 0 ↔ n = 0 := by
  unfold onesRep
  split <;> omega

theorem onesRep_le (hm : 0 < m) (n : Nat) : onesRep m n ≤ m := by
  have hlt := Nat.mod_lt (n - 1) hm
  unfold onesRep
  split <;> omega

theorem onesRep_modEq (m n : Nat) : onesRep m n ≡ n [MOD m] := by
  unfold onesRep
  split
  · next h => rw [h]
  · next h =>
    have hsucc : n - 1 + 1 = n := by omega
    have hmod := (Nat.mod_modEq (n - 1) m).add_right 1
    rwa [hsucc] at hmod

/-- The word of a sum is known by its residue, and by being zero or not. -/
theorem eq_onesRep (hx : x ≤ m) (hmod : x ≡ n [MOD m]) (hzero : x = 0 ↔ n = 0) : x = onesRep m n := by
  by_cases hn : n = 0
  · rw [hzero.mpr hn, hn]
    rfl
  · have hpos : x ≠ 0 := fun h => hn (hzero.mp h)
    have hpred : x - 1 ≡ n - 1 [MOD m] := by
      refine Nat.ModEq.add_right_cancel' 1 ?_
      rwa [Nat.sub_add_cancel (by omega), Nat.sub_add_cancel (by omega)]
    rw [onesRep, if_neg hn, ← hpred, Nat.mod_eq_of_lt (by omega)]
    omega

theorem onesRep_of_le (h : n ≤ m) : onesRep m n = n := (eq_onesRep h rfl Iff.rfl).symm

theorem onesAdd_eq (ha : a ≤ m) (hb : b ≤ m) : onesAdd m a b = onesRep m (a + b) := by
  unfold onesAdd
  split
  · next h => exact (onesRep_of_le h).symm
  · refine eq_onesRep (by omega) ?_ (by omega)
    have hsub : a + b - m + m = a + b := by omega
    have hmod := Nat.add_modEq_right (n := m) (a := a + b - m)
    rw [hsub] at hmod
    exact hmod.symm

theorem onesRep_add (hm : 0 < m) (a b : Nat) : onesRep m (onesRep m a + b) = onesRep m (a + b) := by
  refine eq_onesRep (onesRep_le hm _) ?_ ?_
  · exact (onesRep_modEq m _).trans ((onesRep_modEq m a).add_right b)
  · have hzero := @onesRep_eq_zero m a
    rw [onesRep_eq_zero]
    omega

theorem onesSum_eq (hm : 0 < m) {ws : List Nat} (hws : ∀ w ∈ ws, w ≤ m) :
    onesSum m ws = onesRep m ws.sum := by
  have hfold : ∀ acc, ws.foldl (onesAdd m) (onesRep m acc) = onesRep m (acc + ws.sum) := by
    induction ws with
    | nil => exact fun acc => rfl
    | cons w ws ih =>
      intro acc
      rw [List.forall_mem_cons] at hws
      rw [List.foldl_cons, onesAdd_eq (onesRep_le hm acc) hws.1, onesRep_add hm, ih hws.2,
        List.sum_cons, Nat.add_assoc]
  have hsum := hfold 0
  rwa [Nat.zero_add] at hsum

/-! ## Folding -/

theorem onesRep_carryFold (hm : 0 < m) (n : Nat) : onesRep m (carryFold m n) = onesRep m n := by
  have hdiv := Nat.div_add_mod n (m + 1)
  refine eq_onesRep (onesRep_le hm _) ((onesRep_modEq m _).trans ?_) ?_
  · have hfold : n = carryFold m n + m * (n / (m + 1)) := by
      unfold carryFold
      rw [Nat.add_mul, Nat.one_mul] at hdiv
      omega
    have hmod : carryFold m n + m * (n / (m + 1)) ≡ carryFold m n + 0 [MOD m] :=
      Nat.ModEq.add_left _ ((Nat.modEq_zero_iff_dvd).mpr (Nat.dvd_mul_right m _))
    rw [← hfold] at hmod
    exact hmod.symm
  · rw [onesRep_eq_zero, carryFold, Nat.add_eq_zero_iff]
    constructor
    · rintro ⟨hquot, hrest⟩
      rw [hquot, hrest] at hdiv
      exact hdiv.symm
    · rintro rfl
      exact ⟨Nat.zero_div _, Nat.zero_mod _⟩

theorem carryFold_le (h : n < (m + 1) * (m + 1)) : carryFold m n ≤ 2 * m := by
  have hquot := Nat.div_lt_of_lt_mul h
  have hrest : n % (m + 1) < m + 1 := Nat.mod_lt n (Nat.succ_pos m)
  unfold carryFold
  omega

/-- A number with one word above the lowest is a word after two foldings. -/
theorem carryFold_twice_le (h : n < (m + 1) * (m + 1)) : carryFold m (carryFold m n) ≤ m := by
  have hle := carryFold_le h
  generalize carryFold m n = k at hle
  unfold carryFold
  by_cases hk : k ≤ m
  · rw [Nat.div_eq_of_lt (by omega), Nat.mod_eq_of_lt (by omega)]
    omega
  · have hquot : k / (m + 1) = 1 := Nat.div_eq_of_lt_le (by omega) (by omega)
    have hdiv := Nat.div_add_mod k (m + 1)
    rw [hquot] at hdiv ⊢
    omega

/-- Two foldings give the one's-complement sum. -/
theorem carryFold_twice (hm : 0 < m) (h : n < (m + 1) * (m + 1)) :
    carryFold m (carryFold m n) = onesRep m n := by
  rw [← onesRep_of_le (carryFold_twice_le h), onesRep_carryFold hm, onesRep_carryFold hm]

/-- A sum and its complement make up the word `m`. -/
theorem onesRep_add_complement (hm : 0 < m) (n : Nat) : onesRep m (n + (m - onesRep m n)) = m := by
  have hle := onesRep_le hm n
  have hzero := @onesRep_eq_zero m n
  refine (eq_onesRep (Nat.le_refl m) ?_ (by omega)).symm
  have hmod := (onesRep_modEq m n).symm.add_right (m - onesRep m n)
  rw [Nat.add_sub_cancel' hle] at hmod
  exact hmod.symm

end CLib
