import LinuxHandson.Lib.Errno
import LinuxHandson.Lib.Machine
import LinuxHandson.Lib.Uaccess
import Mathlib.Data.Fintype.Pi

/-!
# Reads that wait for a write

`sig_read` and `sig_write` in any number of threads, each of which may make any number of calls. The
check of the wait condition and the clearing of `data_available` are steps of their own. Beside the flag
stands what no code reads: the writes, numbered from 1 in the order in which they begin, the number of
the write that has set the flag last, and the write that each read has consumed.
-/

namespace SignalAware

open CLib

variable {r w : Nat}

/-- The places of `sig_read`. -/
inductive ReaderLoc where
  /-- Not in a call. -/
  | idle
  /-- Before `wait_event_interruptible` looks at the condition. -/
  | check (count : Nat)
  /-- Asleep in the wait queue. -/
  | asleep (count : Nat)
  /-- Before `data_available = 0`; it has passed the wait after `write` had set the flag. -/
  | clear (count : Nat) (write : Nat)
  /-- Before `copy_to_user`. -/
  | copy (count : Nat)
deriving DecidableEq

/-- The places of `sig_write`. -/
inductive WriterLoc where
  /-- Not in a call. -/
  | idle
  /-- Before `data_available = 1`, in the call that is write number `write`. -/
  | set (count : Nat) (write : Nat)
  /-- Before `wake_up_interruptible`. -/
  | wake (count : Nat)
deriving DecidableEq

/-- How many writes have begun, the one that has set the flag last, and those that reads have consumed. -/
structure History where
  begun : Nat
  lastSet : Nat
  consumed : List Nat

/-- The places of the threads, the flag, and the history. -/
structure State (r w : Nat) where
  readers : Fin r → ReaderLoc
  writers : Fin w → WriterLoc
  dataAvailable : Int
  history : History

/-- The text that every read gets, as it stands in memory. -/
def hello : List UInt8 := [0x68, 0x65, 0x6C, 0x6C, 0x6F, 0]

/-- What a call returns, and what it hands to user space. -/
structure Reply where
  ret : Int
  handed : List UInt8
deriving DecidableEq

/-- Reader `i` goes to `l`. -/
def State.setReader (S : State r w) (i : Fin r) (l : ReaderLoc) : State r w :=
  { S with readers := Function.update S.readers i l }

/-- Writer `k` goes to `l`. -/
def State.setWriter (S : State r w) (k : Fin w) (l : WriterLoc) : State r w :=
  { S with writers := Function.update S.writers k l }

/-- Reader `i` passes the wait. -/
def State.pass (S : State r w) (i : Fin r) (count : Nat) : State r w :=
  { S.setReader i (.clear count S.history.lastSet) with
    history := { S.history with consumed := S.history.consumed ++ [S.history.lastSet] } }

/-- A step of `sig_read`: whether a signal is pending when the condition does not hold, and how many
bytes user space has room for. -/
def sigRead (S : State r w) (i : Fin r) (signal : Bool) (room : Nat) :
    Option (Option Reply × State r w) :=
  match S.readers i with
  | .idle => none
  | .check count =>
    if S.dataAvailable ≠ 0 then some (none, S.pass i count)
    else if signal then some (some ⟨-ERESTARTSYS, []⟩, S.setReader i .idle)
    else some (none, S.setReader i (.asleep count))
  | .asleep _ => none
  | .clear count _ => some (none, { S.setReader i (.copy count) with dataAvailable := 0 })
  | .copy count =>
    (copyToUser hello 0 (min count 5 : Nat) room).map fun p =>
      (some (if p.1 then ⟨(min count 5 : Nat), p.2⟩ else ⟨-EFAULT, p.2⟩), S.setReader i .idle)

/-- A reader that sleeps looks at the condition again. -/
def ReaderLoc.woken : ReaderLoc → ReaderLoc
  | .asleep count => .check count
  | l => l

/-- A step of `sig_write`. -/
def sigWrite (S : State r w) (k : Fin w) : Option (Option Reply × State r w) :=
  match S.writers k with
  | .idle => none
  | .set count write =>
    some (none, { S.setWriter k (.wake count) with
      dataAvailable := 1
      history := { S.history with lastSet := write } })
  | .wake count =>
    some (some ⟨count, []⟩, { S.setWriter k .idle with readers := fun i => (S.readers i).woken })

/-- A call of a thread, or its next step. -/
inductive Event (r w : Nat) where
  /-- Thread `i` calls `read`. -/
  | read (i : Fin r) (count : Nat)
  /-- Its next step. -/
  | reader (i : Fin r) (signal : Bool) (room : Nat)
  /-- A reader wakes up, because of a signal or for no reason. -/
  | wakeUp (i : Fin r)
  /-- Thread `k` calls `write`. -/
  | write (k : Fin w) (count : Nat)
  /-- Its next step. -/
  | writer (k : Fin w)
deriving DecidableEq

/-- One step of one thread, and the reply if a call returns. -/
def step : Machine.Step (State r w) (Event r w) (Option Reply) := fun S e =>
  match e with
  | .read i count =>
    if S.readers i = .idle then some (none, S.setReader i (.check count)) else none
  | .reader i signal room => sigRead S i signal room
  | .wakeUp i => some (none, S.setReader i (S.readers i).woken)
  | .write k count =>
    if S.writers k = .idle then
      some (none, { S.setWriter k (.set count (S.history.begun + 1)) with
        history := { S.history with begun := S.history.begun + 1 } })
    else none
  | .writer k => sigWrite S k

/-- No thread is in a call, and there is no data. -/
def start : State r w := ⟨fun _ => .idle, fun _ => .idle, 0, ⟨0, 0, []⟩⟩

/-- No write is consumed by two reads, so no more reads than writes have consumed data. -/
structure ConsumedOnce (S : State r w) : Prop where
  once : S.history.consumed.Nodup
  bound : S.history.consumed.length ≤ S.history.begun

/-- The reader is about to clear the flag, which has not been set since it passed the wait. -/
def Clears (S : State r w) (j : Fin r) : Prop :=
  ∃ count, S.readers j = .clear count S.history.lastSet

/-- A reader finds the flag set only when no other reader is about to clear it that has passed the wait
since it was set. -/
def OneAtATime (S : State r w) (e : Event r w) : Prop :=
  ∀ i signal room count, e = .reader i signal room → S.readers i = .check count →
    S.dataAvailable ≠ 0 → ∀ j, ¬ Clears S j

end SignalAware
