import LinuxHandson.Lib.Kthread
import LinuxHandson.Lib.Machine
import LinuxHandson.Lib.Rcu
import Mathlib.Data.Fintype.Pi

/-!
# Versions behind an RCU pointer

`reader_fn` in any number of threads, `writer_fn`, the callback `my_rcu_free` and `rcu_demo_exit`, from
the moment `rcu_demo_init` has returned 0. An object is known by the number of its allocation. Beside
the pointer stand the objects published and freed so far, which no code reads.
-/

namespace RcuDemo

open Kthread
open Rcu (Callback)

variable {n : Nat}

/-- What the threads share. -/
structure Shared (n : Nat) where
  rcu : Rcu.State (Fin n) Nat
  globalData : Option Nat
  /-- The number of the next object that `kmalloc` returns. -/
  allocated : Nat
  published : List Nat
  freed : List Nat

/-- `kfree` -/
def Shared.kfree (s : Shared n) (o : Nat) : Shared n := { s with freed := s.freed ++ [o] }

/-- `if (last) kfree(last)` -/
def Shared.kfreeLast (s : Shared n) : Option Nat → Shared n
  | none => s
  | some last => s.kfree last

/-- `if (old_data) call_rcu(&old_data->rcu, my_rcu_free)` -/
def Shared.callRcu (s : Shared n) : Option Nat → Shared n
  | none => s
  | some oldData => { s with rcu := s.rcu.callRcu oldData }

/-- `rcu_assign_pointer(global_data, new_data)` -/
def Shared.assign (s : Shared n) (newData : Nat) : Shared n :=
  { s with globalData := some newData, published := s.published ++ [newData] }

/-- The places of `reader_fn`. -/
inductive ReaderLoc where
  /-- At the test of the loop. -/
  | test
  /-- Before `rcu_read_lock`. -/
  | lock
  /-- Before `rcu_dereference`. -/
  | dereference
  /-- Before `d` is printed. -/
  | print (d : Option Nat)
  /-- Before `rcu_read_unlock`. -/
  | unlock (d : Option Nat)
  /-- In `msleep`. -/
  | sleep
deriving DecidableEq

/-- A step of `reader_fn`. -/
def readerFn (i : Fin n) (shouldStop : Bool) :
    ReaderLoc → Shared n → Option (Option ReaderLoc × Shared n)
  | .test, s => some (if shouldStop then none else some .lock, s)
  | .lock, s => some (some .dereference, { s with rcu := s.rcu.readLock i })
  | .dereference, s => some (some (.print s.globalData), s)
  | .print d, s => some (some (.unlock d), s)
  | .unlock _, s => some (some .sleep, { s with rcu := s.rcu.readUnlock i })
  | .sleep, s => some (some .test, s)

/-- The places of `writer_fn`. -/
inductive WriterLoc where
  /-- At the test of the loop. -/
  | test
  /-- Before `kmalloc`. -/
  | kmalloc
  /-- Before `old_data` is read. -/
  | fetchOld (newData : Nat)
  /-- Before `rcu_assign_pointer`. -/
  | assign (newData : Nat) (oldData : Option Nat)
  /-- Before `call_rcu`. -/
  | callRcu (oldData : Option Nat)
  /-- In one of the two calls of `msleep`. -/
  | sleep
deriving DecidableEq

/-- `writer_fn`; `ok` says whether `kmalloc` succeeds. -/
def writerFn (ok shouldStop : Bool) : WriterLoc → Shared n → Option (Option WriterLoc × Shared n)
  | .test, s => some (if shouldStop then none else some .kmalloc, s)
  | .kmalloc, s =>
    if ok then some (some (.fetchOld s.allocated), { s with allocated := s.allocated + 1 })
    else some (some .sleep, s)
  | .fetchOld newData, s => some (some (.assign newData s.globalData), s)
  | .assign newData oldData, s => some (some (.callRcu oldData), s.assign newData)
  | .callRcu oldData, s => some (some .sleep, s.callRcu oldData)
  | .sleep, s => some (some .test, s)

/-- `my_rcu_free`, when it runs for the callback `c`. -/
def myRcuFree (c : Callback Nat) (s : Shared n) : Option (Shared n) :=
  if c ∈ s.rcu.callbacks ∧ s.rcu.Elapsed c.queued then
    some ({ s with rcu := s.rcu.dequeue c }.kfree c.head)
  else none

/-- The places of `rcu_demo_exit`. -/
inductive ExitLoc where
  /-- Before `kthread_stop(writer_thread)`. -/
  | stopWriter
  /-- In `kthread_stop(writer_thread)`. -/
  | joinWriter
  /-- Before `kthread_stop` of reader `k`; after the last reader, before `synchronize_rcu`. -/
  | stopReader (k : Nat)
  /-- In `kthread_stop` of reader `k`. -/
  | joinReader (k : Nat)
  /-- In `synchronize_rcu`, for the grace period that began at `t`. -/
  | synchronize (t : Nat)
  /-- Before `last` is read. -/
  | fetchLast
  /-- Before `kfree(last)`. -/
  | free (last : Option Nat)
  /-- `rcu_demo_exit` has returned. -/
  | returned
deriving DecidableEq

/-- The threads, where the exit function is, and what they share. -/
structure State (n : Nat) where
  readers : Fin n → Thread ReaderLoc
  writer : Thread WriterLoc
  exit : ExitLoc
  shared : Shared n

/-- One step of `rcu_demo_exit`. -/
def rcuDemoExit (S : State n) : Option (State n) :=
  match S.exit with
  | .stopWriter => some { S with writer := S.writer.stop, exit := .joinWriter }
  | .joinWriter => if S.writer.Ended then some { S with exit := .stopReader 0 } else none
  | .stopReader k =>
    if hk : k < n then
      some { S with
        readers := Function.update S.readers ⟨k, hk⟩ (S.readers ⟨k, hk⟩).stop
        exit := .joinReader k }
    else some { S with exit := .synchronize S.shared.rcu.clock }
  | .joinReader k =>
    if hk : k < n then
      if (S.readers ⟨k, hk⟩).Ended then some { S with exit := .stopReader (k + 1) } else none
    else none
  | .synchronize t => if S.shared.rcu.Elapsed t then some { S with exit := .fetchLast } else none
  | .fetchLast => some { S with exit := .free S.shared.globalData }
  | .free last => some { S with exit := .returned, shared := S.shared.kfreeLast last }
  | .returned => none

/-- Who makes the next step. -/
inductive Event (n : Nat) where
  | reader (i : Fin n)
  | writer (ok : Bool)
  | callback (c : Callback Nat)
  | exit
deriving DecidableEq

/-- One step of a thread, of a callback or of the exit function. -/
def step : Machine.Step (State n) (Event n) Unit := fun S e =>
  match e with
  | .reader i =>
    ((S.readers i).step .test (readerFn i) S.shared).map fun p =>
      ((), { S with readers := Function.update S.readers i p.1, shared := p.2 })
  | .writer ok =>
    (S.writer.step .test (writerFn ok) S.shared).map fun p =>
      ((), { S with writer := p.1, shared := p.2 })
  | .callback c => (myRcuFree c S.shared).map fun s => ((), { S with shared := s })
  | .exit => (rcuDemoExit S).map fun S' => ((), S')

/-- After `rcu_demo_init`, which publishes object 0 and creates the threads. -/
def start : State n where
  readers _ := .created
  writer := .created
  exit := .stopWriter
  shared := ⟨.quiet, some 0, 1, [0], []⟩

/-- The object that a reader has fetched in the section that it is in. -/
def held : Place ReaderLoc → Option Nat
  | .running (.print d) => d
  | .running (.unlock d) => d
  | _ => none

/-- Reader `i` has fetched object `o` and is still in its section. -/
def State.Holds (S : State n) (i : Fin n) (o : Nat) : Prop := held (S.readers i).place = some o

/-- Objects are freed at most once, and never while a reader holds them; and when `rcu_demo_exit` has
returned, every published object is freed or is left to one callback. -/
structure Reclaimed (S : State n) : Prop where
  once : S.shared.freed.Nodup
  unheld : ∀ i o, S.Holds i o → o ∉ S.shared.freed
  all : S.exit = .returned → ∀ o ∈ S.shared.published,
    (o ∈ S.shared.freed ∧ o ∉ S.shared.rcu.heads) ∨
      (o ∉ S.shared.freed ∧ S.shared.rcu.heads.count o = 1)

/-- When `rcu_demo_exit` has returned, no callback of the module is left to run. -/
def Unloadable (S : State n) : Prop := S.exit = .returned → S.shared.rcu.callbacks = []

/-- When `kthread_stop(writer_thread)` returns, all callbacks have run. -/
def DrainedAtJoin (S : State n) (e : Event n) : Prop :=
  e = .exit → S.exit = .joinWriter → S.writer.Ended → S.shared.rcu.callbacks = []

end RcuDemo
