import Mathlib.Data.Int.Basic

/-!
# Error numbers of Linux
-/

namespace CLib

/-- No such file or directory. -/
def ENOENT : Int := 2

/-- Out of memory. -/
def ENOMEM : Int := 12

/-- Bad address. -/
def EFAULT : Int := 14

/-- File exists. -/
def EEXIST : Int := 17

/-- Not a directory. -/
def ENOTDIR : Int := 20

/-- Is a directory. -/
def EISDIR : Int := 21

/-- Invalid argument. -/
def EINVAL : Int := 22

/-- Not a command of the device. -/
def ENOTTY : Int := 25

/-- No space left on device. -/
def ENOSPC : Int := 28

/-- Directory not empty. -/
def ENOTEMPTY : Int := 39

/-- Interrupted by a signal, for the kernel only. -/
def ERESTARTSYS : Int := 512

theorem ENOENT_ne : -ENOENT ≠ 0 := by decide
theorem EEXIST_ne : -EEXIST ≠ 0 := by decide
theorem ENOTDIR_ne : -ENOTDIR ≠ 0 := by decide
theorem EISDIR_ne : -EISDIR ≠ 0 := by decide
theorem ENOSPC_ne : -ENOSPC ≠ 0 := by decide
theorem ENOTEMPTY_ne : -ENOTEMPTY ≠ 0 := by decide

theorem ENOENT_neg : -ENOENT < 0 := by decide
theorem ENOMEM_neg : -ENOMEM < 0 := by decide
theorem EEXIST_neg : -EEXIST < 0 := by decide
theorem ENOTDIR_neg : -ENOTDIR < 0 := by decide
theorem EISDIR_neg : -EISDIR < 0 := by decide
theorem ENOSPC_neg : -ENOSPC < 0 := by decide
theorem ENOTEMPTY_neg : -ENOTEMPTY < 0 := by decide

end CLib
