import LinuxHandson.Drivers.MessageDevices
import LinuxHandson.Lib.LockedObject

/-!
# Message devices behind a mutex

`misc_read` and `misc_write` of `misc_demo`, and `dev_read` and `dev_write` of `chardev_new`, statement
by statement, with the copies to and from user space byte by byte. The two drivers differ in the size
of the buffer only.
-/

namespace MessageBuffer

open CLib

/-- The statements between `mutex_lock` and `mutex_unlock`. -/
inductive Place where
  /-- `if (*off >= buf_len)` -/
  | readTest (count : Nat) (off : Int) (room : Nat)
  /-- `to_copy = min_t(int, count, buf_len - *off)` -/
  | readLen (count : Nat) (off : Int) (room : Nat)
  /-- `copy_to_user(buf, device_buf + *off, to_copy)`, which has copied `handed`. -/
  | copyOut (toCopy off : Int) (room : Nat) (handed : List UInt8)
  /-- `*off += to_copy` -/
  | readEnd (toCopy off : Int) (handed : List UInt8)
  /-- `copy_from_user(device_buf, buf, to_copy)`, which has come to byte `k`. -/
  | copyIn (toCopy : Int) (src : UserSrc) (off : Int) (k : Nat)
  /-- The same after a fault, where the rest of the bytes is set to zero. -/
  | pad (toCopy off : Int) (k : Nat)
  /-- `buf_len = to_copy` -/
  | writeLen (toCopy off : Int)
  /-- `device_buf[buf_len] = '\0'` -/
  | writeEnd (toCopy off : Int)
  /-- `return -EFAULT` -/
  | fail (off : Int) (handed : List UInt8)

/-- A step of `copy_to_user`. -/
def copyOut (m : Msg) (toCopy off : Int) (room : Nat) (handed : List UInt8) :
    Round (Place × Msg) (FileReply × Msg) :=
  if toCopy < 0 ∨ off < 0 then .undefined
  else if toCopy ≤ handed.length then .again (.readEnd toCopy off handed, m)
  else if room ≤ handed.length then .again (.fail off handed, m)
  else
    match m.buf[off.toNat + handed.length]? with
    | some b => .again (.copyOut toCopy off room (handed ++ [b]), m)
    | none => .undefined

/-- A step of `copy_from_user`. -/
def copyIn (m : Msg) (toCopy : Int) (src : UserSrc) (off : Int) (k : Nat) :
    Round (Place × Msg) (FileReply × Msg) :=
  if toCopy < 0 then .undefined
  else if toCopy ≤ k then .again (.writeLen toCopy off, m)
  else
    match src.bytes[k]? with
    | some b =>
      if k < m.buf.length then .again (.copyIn toCopy src off (k + 1), { m with buf := m.buf.set k b })
      else .undefined
    | none => .again (if src.padded then .pad toCopy off k else .fail off [], m)

/-- A step of the section under the mutex. -/
def underLock : Place × Msg → Round (Place × Msg) (FileReply × Msg)
  | (.readTest count off room, m) =>
    if m.len ≤ off then .done (⟨0, [], off⟩, m) else .again (.readLen count off room, m)
  | (.readLen count off room, m) =>
    .again (.copyOut (min (cInt count) (cInt (m.len - off))) off room [], m)
  | (.copyOut toCopy off room handed, m) => copyOut m toCopy off room handed
  | (.readEnd toCopy off handed, m) => .done (⟨toCopy, handed, off + toCopy⟩, m)
  | (.copyIn toCopy src off k, m) => copyIn m toCopy src off k
  | (.pad toCopy off k, m) =>
    if toCopy ≤ k then .again (.fail off [], m)
    else if k < m.buf.length then .again (.pad toCopy off (k + 1), { m with buf := m.buf.set k 0 })
    else .undefined
  | (.writeLen toCopy off, m) => .again (.writeEnd toCopy off, { m with len := toCopy })
  | (.writeEnd toCopy off, m) =>
    if 0 ≤ m.len ∧ m.len < m.buf.length then
      .done (⟨toCopy, [], off⟩, { m with buf := m.buf.set m.len.toNat 0 })
    else .undefined
  | (.fail off handed, m) => .done (⟨-EFAULT, handed, off⟩, m)

/-- The two functions: `write` computes its `to_copy` before it takes the mutex. -/
def lockedCode (size : Nat) : LockedObject.Code Msg Call FileReply Place where
  enter
    | .read count off room => .readTest count off room
    | .write src count off => .copyIn (min (cInt count) (cInt ((size : Int) - 1))) src off 0
  body := underLock

end MessageBuffer

/-- The drivers that hold a mutex around each copy. -/
inductive LockedDevice where
  | miscDemo
  | chardevNew

/-- `BUF_SIZE` -/
def LockedDevice.bufSize : LockedDevice → Nat
  | .miscDemo => 1024
  | .chardevNew => 4096

namespace LockedDevice

open CLib MessageBuffer

/-- A driver under calls from the threads `ι`. -/
def step {ι : Type} [DecidableEq ι] (d : LockedDevice) :
    Machine.Step (LockedObject.State ι Msg Call FileReply Place) (LockedObject.Event ι Call)
      (Option (LockedObject.Action ι Call FileReply)) :=
  LockedObject.step (lockedCode d.bufSize)

/-- No thread is in a call, and the buffer is empty. -/
def start {ι : Type} (d : LockedDevice) : LockedObject.State ι Msg Call FileReply Place :=
  .start (.empty d.bufSize)

end LockedDevice
