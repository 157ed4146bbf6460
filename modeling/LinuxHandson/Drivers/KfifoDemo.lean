import LinuxHandson.Lib.CString
import LinuxHandson.Lib.Errno
import LinuxHandson.Lib.Machine
import LinuxHandson.Lib.Uaccess

/-!
# A queue of integers behind a file of `/proc`

`fifo_write` and `fifo_read` on `my_fifo`, which is a list of at most 64 values. `kstrtoint` of the
kernel is a parameter: it gives a value or a negative error number.
-/

namespace KfifoDemo

open CLib

/-- The size of `my_fifo`. -/
def fifoSize : Nat := 64

/-- The queue, its oldest value first. -/
abbrev Fifo := List Int32

/-- `kfifo_put`, which leaves a full queue as it is. -/
def kfifoPut (q : Fifo) (val : Int32) : Fifo := if q.length < fifoSize then q ++ [val] else q

/-- `kfifo_get`: the oldest value and the queue without it. -/
def kfifoGet : Fifo → Option (Int32 × Fifo)
  | [] => none
  | val :: q => some (val, q)

/-- The queue after `kfifo_demo_init`, which puts five values and gets two. -/
def initFifo : Fifo := ([10, 20, 30, 40, 50].foldl kfifoPut []).drop 2

/-- The error that a function of the kernel returns. -/
abbrev ErrorCode := { e : Int // e < 0 }

/-- `kstrtoint`, by the string that it is given. -/
abbrev Kstrtoint := CStr → Except ErrorCode Int32

/-- `sizeof(kbuf)` -/
def kbufSize : Nat := 32

/-- `kbuf`, of which only what was copied into it is read. -/
def kbuf : List UInt8 := List.replicate kbufSize 0

/-- `fifo_write` -/
def fifoWrite (kstrtoint : Kstrtoint) (q : Fifo) (src : UserSrc) (count : Nat) :
    Option (Int × Fifo) :=
  if kbufSize ≤ count then some (-EINVAL, q)
  else (copyFromUser kbuf src count).map fun p =>
    if p.1 = false then (-EFAULT, q)
    else match kstrtoint (.ofBuf (p.2.set count 0)) with
      | .error ret => (ret, q)
      | .ok val => if q.length = fifoSize then (-ENOSPC, q) else (count, kfifoPut q val)

/-- What `fifo_read` prints for a value. -/
def line (val : Int32) : List UInt8 := decimal val.toInt ++ [0x0A]

/-- What a call returns, what it hands to user space, and `*off` after it. -/
structure Reply where
  ret : Int
  handed : List UInt8
  off : Int
deriving DecidableEq

/-- `fifo_read`, which takes a value from the queue before it copies its text. -/
def fifoRead (q : Fifo) (count : Nat) (off : Int) (room : Nat) : Option (Reply × Fifo) :=
  if 0 < off then some (⟨0, [], off⟩, q)
  else if q = [] then some (⟨0, [], off⟩, q)
  else match kfifoGet q with
    | none => some (⟨0, [], off⟩, q)
    | some (val, q') =>
      (copyToUser (snprintf kbufSize (line val)) 0 (min (line val).length count : Nat) room).map
        fun p =>
          (if p.1 then
            ⟨(min (line val).length count : Nat), p.2, off + (min (line val).length count : Nat)⟩
          else ⟨-EFAULT, p.2, off⟩, q')

/-- A call through the open file `file`. -/
inductive Call where
  | write (file : Nat) (src : UserSrc) (count : Nat)
  | read (file : Nat) (count : Nat) (off : Int) (room : Nat)
deriving DecidableEq

/-- One call on the queue. -/
def step (kstrtoint : Kstrtoint) : Machine.Step Fifo Call Reply := fun q c =>
  match c with
  | .write _ src count => (fifoWrite kstrtoint q src count).map fun p => (⟨p.1, [], 0⟩, p.2)
  | .read _ count off room => fifoRead q count off room

/-- The queue with its history: the values that were written, those of the init function included; the
texts that calls of `fifo_read` have delivered, each with its reader; and whether all calls that
returned an error have left the queue as it was. -/
structure Tracked where
  fifo : Fifo
  written : List Int32
  delivered : List (Nat × List UInt8)
  errorsKept : Bool

/-- After the init function. -/
def Tracked.init : Tracked := ⟨initFifo, initFifo, [], true⟩

/-- The value that a call of `fifo_write` has written. -/
def writtenBy (kstrtoint : Kstrtoint) (src : UserSrc) (count : Nat) : List Int32 :=
  match kstrtoint (.ofBuf (src.bytes.take count)) with
  | .error _ => []
  | .ok val => [val]

/-- The history after a call. -/
def track (kstrtoint : Kstrtoint) (s : Tracked) (c : Call) (r : Reply) (q : Fifo) : Tracked where
  fifo := q
  written :=
    match c with
    | .write _ src count =>
      if 0 ≤ r.ret then s.written ++ writtenBy kstrtoint src count else s.written
    | .read _ _ _ _ => s.written
  delivered :=
    match c with
    | .write _ _ _ => s.delivered
    | .read file _ _ _ => if 0 < r.ret then s.delivered ++ [(file, r.handed)] else s.delivered
  errorsKept := s.errorsKept && (decide (0 ≤ r.ret) || decide (q = s.fifo))

/-- One call on the queue with its history. -/
def trackedStep (kstrtoint : Kstrtoint) : Machine.Step Tracked Call Reply := fun s c =>
  (step kstrtoint s.fifo c).map fun p => (p.1, track kstrtoint s c p.1 p.2)

/-- The values that have left the queue. -/
def Tracked.gone (s : Tracked) : List Int32 := s.written.take (s.written.length - s.fifo.length)

/-- The values that have left the queue are the oldest, each was delivered once and whole, in order,
and no error has changed the queue. -/
structure Delivered (s : Tracked) : Prop where
  order : s.written = s.gone ++ s.fifo
  whole : s.delivered.map Prod.snd = s.gone.map line
  errors : s.errorsKept = true

/-- A call of `fifo_read` that takes a value has room for its whole line. -/
def WholeLine (s : Tracked) (c : Call) : Prop :=
  ∀ file count off room val q, c = .read file count off room → off ≤ 0 → s.fifo = val :: q →
    (line val).length ≤ count ∧ (line val).length ≤ room

end KfifoDemo
