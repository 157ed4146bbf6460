import LinuxHandson.Lib.CInt
import LinuxHandson.Lib.Loop
import Mathlib.Algebra.Order.Ring.Int

/-!
# Divisors and multiples in the maths library

`mathlib_gcd` and `mathlib_lcm` with the arithmetic of `int`, where an overflow is undefined: so is the
negation of `INT_MIN`.
-/

namespace MathlibBasic

open CLib

/-- `INT_MIN` -/
def intMin : Int := -2 ^ 31

/-- `if (a < 0) a = -a` -/
def absolute (a : Int) : Option Int := if a < 0 then intArith (-a) else some a

/-- One round of the loop of `mathlib_gcd`. -/
def gcdRound (s : Int × Int) : Round (Int × Int) Int :=
  if s.2 ≠ 0 then .ofOption ((intMod s.1 s.2).map fun r => .again (s.2, r)) else .done s.1

/-- `mathlib_gcd`. As `b` becomes smaller in each round, `b + 1` rounds are enough. -/
def mathlibGcd (a b : Int) : Option Int :=
  (absolute a).bind fun a => (absolute b).bind fun b =>
    match rounds gcdRound (b.toNat + 1) (a, b) with
    | .done r => some r
    | _ => none

/-- `mathlib_lcm` -/
def mathlibLcm (a b : Int) : Option Int :=
  if a = 0 ∨ b = 0 then some 0
  else (mathlibGcd a b).bind fun g => (intDiv a g).bind fun q => intArith (q * b)

/-- `mathlib_gcd` returns the greatest common divisor if it fits in an `int`, without an overflow. -/
def GcdLaw (a b : Int) : Prop := a.gcd b < 2 ^ 31 → mathlibGcd a b = some (a.gcd b : Int)

/-- `mathlib_lcm` returns the least common multiple if it fits, without an overflow. -/
def LcmLaw (a b : Int) : Prop := a.lcm b < 2 ^ 31 → mathlibLcm a b = some (a.lcm b : Int)

/-- Neither number is `INT_MIN`, or there is none beside `INT_MIN` but 0. -/
def Negatable (a b : Int) : Prop :=
  a ≠ intMin ∧ b ≠ intMin ∨ (a = 0 ∨ a = intMin) ∧ (b = 0 ∨ b = intMin)

/-- The numbers do not have opposite signs. -/
def SameSign (a b : Int) : Prop := 0 ≤ a * b

end MathlibBasic
