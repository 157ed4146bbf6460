import LinuxHandson.Lib.CInt
import LinuxHandson.Lib.Loop
import Mathlib.Data.Nat.Prime.Defs

/-!
# The prime test of the maths library

`mathlib_is_prime` tries the numbers next to the multiples of 6. Its arithmetic is that of `int`, where
an overflow is undefined.
-/

namespace MathlibAdvanced

open CLib

/-- One round of the loop of `mathlib_is_prime`. -/
def isPrimeRound (n i : Int) : Round Int Int :=
  .ofOption <| (intArith (i * i)).bind fun square =>
    if square ≤ n then
      (intMod n i).bind fun r =>
        if r = 0 then some (.done 0)
        else
          (intArith (i + 2)).bind fun next => (intMod n next).bind fun r' =>
            if r' = 0 then some (.done 0) else (intArith (i + 6)).map .again
    else some (.done 1)

/-- `mathlib_is_prime`. As `i` grows, `n` rounds are more than the loop has. -/
def mathlibIsPrime (n : Int) : Round Int Int :=
  if n ≤ 1 then .done 0
  else if n ≤ 3 then .done 1
  else if n.tmod 2 = 0 ∨ n.tmod 3 = 0 then .done 0
  else rounds (isPrimeRound n) n.toNat 5

/-- The last number whose square is tried within `int`. -/
def lastDivisor : Nat := 46337

/-- The function returns 1 for a prime and 0 for any other number, with all its arithmetic in range. -/
def TellsPrime (n : Int) : Prop := mathlibIsPrime n = .done (if n.toNat.Prime then 1 else 0)

end MathlibAdvanced
