import Mathlib.Algebra.Group.Int.Defs
import Mathlib.Algebra.Group.Nat.Defs
import Mathlib.Data.Int.Basic

/-!
# Machine integers of the LP64 data model

Conversions between the integer types, on the mathematical value: an unsigned type takes the
residue, a signed one the residue nearest to zero (as gcc defines it).
-/

namespace CLib

/-- Conversion to `size_t` (also `uint64_t` and `unsigned long`). -/
def sizeT (x : Int) : Nat := (x % 2 ^ 64).toNat

/-- Conversion to `uint32_t`. -/
def uint32 (x : Int) : Nat := (x % 2 ^ 32).toNat

/-- Conversion to `off_t`, a signed 64-bit type. -/
def offT (x : Int) : Int := x.bmod (2 ^ 64)

/-- Conversion to `int`. -/
def cInt (x : Int) : Int := x.bmod (2 ^ 32)

/-- An arithmetic result of type `int`: no value when it overflows, which C leaves undefined. -/
def intArith (x : Int) : Option Int := if -2 ^ 31 ≤ x ∧ x < 2 ^ 31 then some x else none

/-- The quotient of two numbers of type `int`: none when it overflows, or the divisor is 0. -/
def intDiv (a b : Int) : Option Int := if b = 0 then none else intArith (a.tdiv b)

/-- The remainder, which is undefined where the quotient is. -/
def intMod (a b : Int) : Option Int := (intDiv a b).map fun _ => a.tmod b

theorem sizeT_of_lt {x : Int} (h0 : 0 ≤ x) (h : x < 2 ^ 64) : (sizeT x : Int) = x := by
  rw [sizeT, Int.emod_eq_of_lt h0 h, Int.toNat_of_nonneg h0]

theorem sizeT_natCast {n : Nat} (h : n < 2 ^ 64) : sizeT n = n := by
  have := sizeT_of_lt (x := n) (by omega) (by omega)
  omega

theorem sizeT_lt (x : Int) : sizeT x < 2 ^ 64 := by
  unfold sizeT
  omega

theorem uint32_natCast {n : Nat} (h : n < 2 ^ 32) : uint32 n = n := by
  unfold uint32
  omega

theorem offT_of_lt {x : Int} (h0 : 0 ≤ x) (h : x < 2 ^ 63) : offT x = x := by
  rw [offT, Int.bmod_def]
  split <;> omega

theorem cInt_of_lt {x : Int} (h0 : 0 ≤ x) (h : x < 2 ^ 31) : cInt x = x := by
  rw [cInt, Int.bmod_def]
  split <;> omega

theorem cInt_natCast_le (n : Nat) : cInt n ≤ n := by
  rw [cInt, Int.bmod_def]
  split <;> omega

theorem intArith_of_range {x : Int} (h1 : -2 ^ 31 ≤ x) (h2 : x < 2 ^ 31) : intArith x = some x := by
  simp only [intArith]
  exact if_pos ⟨h1, h2⟩

theorem intArith_natCast {n : Nat} (h : n < 2 ^ 31) : intArith (n : Int) = some (n : Int) :=
  intArith_of_range (by omega) (by omega)

theorem intArith_none {x : Int} (h : 2 ^ 31 ≤ x) : intArith x = none := by
  rw [intArith]
  exact if_neg fun hx => Int.not_lt.mpr h hx.2

theorem intDiv_natCast {a b : Nat} (hb : 0 < b) (ha : a < 2 ^ 31) :
    intDiv a b = some ((a / b : Nat) : Int) := by
  have hle := Nat.div_le_self a b
  rw [intDiv, if_neg (by omega), ← Int.ofNat_tdiv]
  exact intArith_natCast (by omega)

theorem intMod_natCast {a b : Nat} (hb : 0 < b) (ha : a < 2 ^ 31) :
    intMod a b = some ((a % b : Nat) : Int) := by
  rw [intMod, intDiv_natCast hb ha, Option.map_some, Int.ofNat_tmod]

theorem lt_of_intArith {x y : Int} (h : intArith x = some y) : x < 2 ^ 31 := by
  rw [intArith] at h
  split at h
  · next hx => exact hx.2
  · cases h

theorem eq_of_intArith {x y : Int} (h : intArith x = some y) : y = x := by
  rw [intArith] at h
  split at h
  · exact (Option.some.inj h).symm
  · cases h

end CLib
