import LinuxHandson.Drivers.ChardevIoctl
import LinuxHandson.Lib.ChunkedRead

/-!
# Devices that store a message

The `read` and `write` of `chardev_new` and of `misc_multi` are those of `chardev_ioctl` with other
buffers: a write copies from user space straight into the buffer and then sets the length, and a read
copies to user space what stands behind the file offset. `misc_multi` gives each open file a buffer of
its own.
-/

namespace MessageBuffer

open CLib

/-- The buffer and the length of the message in it. -/
structure Msg where
  buf : List UInt8
  len : Int

/-- A buffer of zeros, with no message in it. -/
def Msg.empty (size : Nat) : Msg := ⟨List.replicate size 0, 0⟩

/-- The length that a read copies. -/
def readLen (m : Msg) (count : Nat) (off : Int) : Int := min (cInt count) (cInt (m.len - off))

/-- The read of a message: what is behind the offset, as far as it is asked for. -/
def read (m : Msg) (count : Nat) (off : Int) (room : Nat) : Option FileReply :=
  if m.len ≤ off then some ⟨0, [], off⟩
  else
    (copyToUser m.buf off (readLen m count off) room).map fun p =>
      if p.1 then ⟨readLen m count off, p.2, off + readLen m count off⟩ else ⟨-EFAULT, p.2, off⟩

/-- The length that a write copies. -/
def writeLen (size count : Nat) : Int := min (cInt count) (cInt ((size : Int) - 1))

/-- The write of a message at the start of the buffer, ended by a NUL. It is undefined where the NUL would
be outside of the buffer. -/
def write (size : Nat) (m : Msg) (src : UserSrc) (count : Nat) (off : Int) :
    Option (FileReply × Msg) :=
  (copyFromUser m.buf src (writeLen size count)).bind fun p =>
    if p.1 = false then some (⟨-EFAULT, [], off⟩, { m with buf := p.2 })
    else if 0 ≤ writeLen size count ∧ writeLen size count < p.2.length then
      some (⟨writeLen size count, [], off⟩,
        ⟨p.2.set (writeLen size count).toNat 0, writeLen size count⟩)
    else none

/-- A call on a message buffer. -/
inductive Call where
  | read (count : Nat) (off : Int) (room : Nat)
  | write (src : UserSrc) (count : Nat) (off : Int)
deriving DecidableEq

/-- What the VFS guarantees. -/
def Call.Valid : Call → Prop
  | .read count off _ => count ≤ maxCount ∧ 0 ≤ off
  | .write _ count off => count ≤ maxCount ∧ 0 ≤ off

/-- One call on a buffer of `size` bytes. -/
def step (size : Nat) : Machine.Step Msg Call FileReply := fun m c =>
  match c with
  | .read count off room => (read m count off room).map fun r => (r, m)
  | .write src count off => write size m src count off

/-- The messages that the calls can lead to. -/
def Stored (size : Nat) (m : Msg) : Prop :=
  Machine.Reach (step size) (fun _ c => c.Valid) (.empty size) m

/-- A message after a failed write, and what reads return of it. -/
structure Unharmed (len len' : Int) (buf buf' : List UInt8) (reader reader' : Reader) : Prop where
  length : len' = len
  bytes : buf'.take len.toNat = buf.take len.toNat
  reads : ∀ count off room, count ≤ maxCount → 0 ≤ off → reader' count off room = reader count off room

/-- The length, the bytes and the reads of a message are as before. -/
def Msg.Unharmed (m m' : Msg) : Prop :=
  MessageBuffer.Unharmed m.len m'.len m.buf m'.buf (read m) (read m')

end MessageBuffer

namespace ChardevNew

open CLib MessageBuffer

/-- `BUF_SIZE` -/
def bufSize : Nat := 4096

/-- `dev_read` -/
def devRead (d : Msg) : Reader := MessageBuffer.read d

/-- `dev_write` -/
def devWrite (d : Msg) (src : UserSrc) (count : Nat) (off : Int) : Option (FileReply × Msg) :=
  MessageBuffer.write bufSize d src count off

end ChardevNew

namespace MiscMulti

open CLib MessageBuffer

/-- `BUF_SIZE` -/
def bufSize : Nat := 1024

/-- `misc_read` -/
def miscRead (priv : Msg) : Reader := MessageBuffer.read priv

/-- `misc_write` -/
def miscWrite (priv : Msg) (src : UserSrc) (count : Nat) (off : Int) : Option (FileReply × Msg) :=
  MessageBuffer.write bufSize priv src count off

end MiscMulti

namespace ChardevIoctl

open CLib

/-- The message of the device. -/
def Dev.msg (d : Dev) : MessageBuffer.Msg := ⟨d.deviceBuf, d.bufLen⟩

/-- `dev_read`, which changes nothing but the offset. -/
def reader (d : Dev) : Reader := fun count off room =>
  (devRead d count off room).map fun p => ⟨p.1.ret, p.1.handed, p.1.off⟩

/-- The length, the bytes and the reads of the message of a device are as before. -/
def Dev.Unharmed (d d' : Dev) : Prop :=
  MessageBuffer.Unharmed d.bufLen d'.bufLen d.deviceBuf d'.deviceBuf (reader d) (reader d')

end ChardevIoctl
