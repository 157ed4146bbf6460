import Mathlib.Data.BitVec

/-!
# The clock of the kernel

`jiffies` counts ticks in an `unsigned long`, which wraps. Two readings are compared by the sign of
their difference.
-/

namespace CLib

/-- `HZ`, in the range that the kernel supports. -/
structure Hz where
  val : Nat
  lower : 12 ≤ val
  upper : val < 12288
deriving DecidableEq

/-- The width of a `long`. -/
inductive LongWidth where
  | long32
  | long64
deriving DecidableEq

/-- The bits of a `long`. -/
def LongWidth.bits : LongWidth → Nat
  | .long32 => 32
  | .long64 => 64

/-- `unsigned long` -/
abbrev ULong (w : LongWidth) := BitVec w.bits

/-- `msecs_to_jiffies`, which rounds up. -/
def msecsToJiffies (hz : Hz) (m : Nat) : Nat := (m * hz.val + 999) / 1000

/-- `time_before(a, b)` -/
def timeBefore {w : LongWidth} (a b : ULong w) : Bool := (a - b).toInt < 0

variable {w : LongWidth}

theorem LongWidth.pow_bits (w : LongWidth) : 2 * 2 ^ (w.bits - 1) = 2 ^ w.bits := by
  cases w <;> rfl

theorem LongWidth.pow_bits_ge (w : LongWidth) : 2 ^ 31 ≤ 2 ^ (w.bits - 1) := by
  cases w <;> decide

/-- A number of ticks covers `m` milliseconds exactly if it is as large as `m` is in ticks. -/
theorem msecsToJiffies_le_iff {hz : Hz} {m g : Nat} :
    msecsToJiffies hz m ≤ g ↔ m * hz.val ≤ 1000 * g := by
  unfold msecsToJiffies
  omega

/-- One reading is before another if their difference is in the upper half of the range. -/
theorem timeBefore_iff {a b : ULong w} : timeBefore a b = true ↔ 2 ^ w.bits ≤ 2 * (a - b).toNat := by
  rw [timeBefore, decide_eq_true_iff]
  exact BitVec.toInt_neg_iff

/-- A later reading seems to be before an earlier one after half the range. -/
theorem timeBefore_add_left (a : ULong w) (n : Nat) :
    timeBefore (a + BitVec.ofNat _ n) a = true ↔ 2 ^ w.bits ≤ 2 * (n % 2 ^ w.bits) := by
  rw [timeBefore_iff, BitVec.add_comm, BitVec.add_sub_cancel, BitVec.toNat_ofNat]

/-- A reading is before those of the next half of the range. -/
theorem timeBefore_add_right (a : ULong w) {n : Nat} (h0 : 0 < n) (h : 2 * n ≤ 2 ^ w.bits) :
    timeBefore a (a + BitVec.ofNat _ n) = true := by
  have hlt : n < 2 ^ w.bits := by omega
  have hneg : a - (a + BitVec.ofNat _ n) = -BitVec.ofNat _ n := sub_add_cancel_left a _
  rw [timeBefore_iff, hneg, BitVec.toNat_neg, BitVec.toNat_ofNat, Nat.mod_eq_of_lt hlt,
    Nat.mod_eq_of_lt (by omega)]
  omega

end CLib
