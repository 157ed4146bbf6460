import LinuxHandson.Lib.Bytes
import LinuxHandson.Lib.CInt
import LinuxHandson.Lib.CString
import LinuxHandson.Lib.Errno
import LinuxHandson.Lib.Machine
import LinuxHandson.Lib.Uaccess

/-!
# A character device with `ioctl`

`dev_read`, `dev_write` and `dev_ioctl`, each under `dev_mutex` and so one step. A call comes with
what its user address gives access to: the bytes that can be read there, and the room for bytes
written there. A reply has the return value, the bytes handed to user space and the file offset after
the call.
-/

namespace ChardevIoctl

open CLib

/-- `BUF_SIZE` -/
def bufSize : Nat := 4096

/-- `_IOC` -/
def ioc (dir type nr size : Nat) : Nat := dir <<< 30 ||| type <<< 8 ||| nr ||| size <<< 16

/-- `IOCTL_MAGIC` -/
def ioctlMagic : Nat := 0x6B

/-- `IOCTL_RESET` -/
def ioctlReset : Nat := ioc 0 ioctlMagic 0 0

/-- `IOCTL_SET_MSG` -/
def ioctlSetMsg : Nat := ioc 1 ioctlMagic 1 bufSize

/-- `IOCTL_GET_MSG` -/
def ioctlGetMsg : Nat := ioc 2 ioctlMagic 2 bufSize

/-- `IOCTL_GET_LEN` -/
def ioctlGetLen : Nat := ioc 2 ioctlMagic 3 4

/-- `IOCTL_GET_COUNT` -/
def ioctlGetCount : Nat := ioc 2 ioctlMagic 4 4

/-- The variables of the module. -/
structure Dev where
  deviceBuf : List UInt8
  bufLen : Int
  ioctlCount : Int

/-- The variables when the module is loaded. -/
def Dev.initial : Dev := ⟨List.replicate bufSize 0, 0, 0⟩

/-- What a call returns, the bytes that it hands to user space, and the offset after it. -/
structure Reply where
  ret : Int
  handed : List UInt8
  off : Int
deriving DecidableEq

/-- A call on the device. -/
inductive Call where
  | read (count : Nat) (off : Int) (room : Nat)
  | write (src : UserSrc) (count : Nat) (off : Int)
  | ioctl (cmd : Nat) (src : UserSrc) (room : Nat)
deriving DecidableEq

/-- The bytes of an `int`. -/
def intBytes (x : Int) : List UInt8 := leBytes 4 (uint32 x)

/-- The length that `dev_read` copies. -/
def readLen (d : Dev) (count : Nat) (off : Int) : Int := min (cInt count) (cInt (d.bufLen - off))

/-- `dev_read` -/
def devRead (d : Dev) (count : Nat) (off : Int) (room : Nat) : Option (Reply × Dev) :=
  if d.bufLen ≤ off then some (⟨0, [], off⟩, d)
  else
    (copyToUser d.deviceBuf off (readLen d count off) room).map fun p =>
      (if p.1 then ⟨readLen d count off, p.2, off + readLen d count off⟩ else ⟨-EFAULT, p.2, off⟩, d)

/-- The length that `dev_write` copies. -/
def writeLen (count : Nat) : Int := min (cInt count) (cInt (bufSize - 1))

/-- `dev_write` -/
def devWrite (d : Dev) (src : UserSrc) (count : Nat) (off : Int) : Option (Reply × Dev) :=
  (copyFromUser d.deviceBuf src (writeLen count)).bind fun p =>
    if p.1 = false then some (⟨-EFAULT, [], off⟩, { d with deviceBuf := p.2 })
    else if writeLen count < p.2.length then
      some (⟨writeLen count, [], off⟩,
        { d with deviceBuf := p.2.set (writeLen count).toNat 0, bufLen := writeLen count })
    else none

/-- `IOCTL_RESET` -/
def reset (d : Dev) : Option (Reply × Dev) :=
  some (⟨0, [], 0⟩, { d with deviceBuf := List.replicate bufSize 0, bufLen := 0 })

/-- `IOCTL_SET_MSG` -/
def setMsg (d : Dev) (src : UserSrc) : Option (Reply × Dev) :=
  (copyFromUser d.deviceBuf src (bufSize - 1)).bind fun p =>
    if p.1 = false then some (⟨-EFAULT, [], 0⟩, { d with deviceBuf := p.2 })
    else (strlenIn (p.2.set (bufSize - 1) 0)).map fun (n : Nat) =>
      (⟨0, [], 0⟩, { d with deviceBuf := p.2.set (bufSize - 1) 0, bufLen := cInt n })

/-- `IOCTL_GET_MSG` -/
def getMsg (d : Dev) (room : Nat) : Option (Reply × Dev) :=
  (copyToUser d.deviceBuf 0 (d.bufLen + 1) room).map fun p =>
    (⟨if p.1 then 0 else -EFAULT, p.2, 0⟩, d)

/-- `IOCTL_GET_LEN` and `IOCTL_GET_COUNT` -/
def getInt (d : Dev) (x : Int) (room : Nat) : Option (Reply × Dev) :=
  (copyToUser (intBytes x) 0 4 room).map fun p => (⟨if p.1 then 0 else -EFAULT, p.2, 0⟩, d)

/-- `ioctl_count++` -/
def Dev.counted (d : Dev) : Dev := { d with ioctlCount := cInt (d.ioctlCount + 1) }

/-- The `switch` of `dev_ioctl`. -/
def dispatch (d : Dev) (cmd : Nat) (src : UserSrc) (room : Nat) : Option (Reply × Dev) :=
  if cmd = ioctlReset then reset d
  else if cmd = ioctlSetMsg then setMsg d src
  else if cmd = ioctlGetMsg then getMsg d room
  else if cmd = ioctlGetLen then getInt d d.bufLen room
  else if cmd = ioctlGetCount then getInt d d.ioctlCount room
  else some (⟨-ENOTTY, [], 0⟩, d)

/-- `dev_ioctl`, which counts the call first. -/
def devIoctl (d : Dev) (cmd : Nat) (src : UserSrc) (room : Nat) : Option (Reply × Dev) :=
  dispatch d.counted cmd src room

/-- One call on the device. -/
def step : Machine.Step Dev Call Reply := fun d c =>
  match c with
  | .read count off room => devRead d count off room
  | .write src count off => devWrite d src count off
  | .ioctl cmd src room => devIoctl d cmd src room

/-- `MAX_RW_COUNT` -/
def maxRwCount : Nat := 0x7FFFF000

/-- What the VFS guarantees. -/
def Call.Valid : Call → Prop
  | .read count off _ => count ≤ maxRwCount ∧ 0 ≤ off
  | .write _ count off => count ≤ maxRwCount ∧ 0 ≤ off
  | .ioctl _ _ _ => True

instance : (c : Call) → Decidable c.Valid
  | .read count off _ => inferInstanceAs (Decidable (count ≤ maxRwCount ∧ 0 ≤ off))
  | .write _ count off => inferInstanceAs (Decidable (count ≤ maxRwCount ∧ 0 ≤ off))
  | .ioctl _ _ _ => inferInstanceAs (Decidable True)

end ChardevIoctl
