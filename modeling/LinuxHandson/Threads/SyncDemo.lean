import LinuxHandson.Lib.CInt
import LinuxHandson.Lib.Kthread
import LinuxHandson.Lib.Machine
import Mathlib.Data.Fintype.Pi

/-!
# Counters under different locks

`worker_fn` in any number of threads and `sync_demo_init`, all of whose calls of `kthread_run` succeed.
Every access to a counter and every call on a lock is a step of its own.
-/

namespace SyncDemo

open CLib Kthread

variable {n : Nat}

/-- The two locks. -/
inductive Lock where
  | mySpinlock
  | myMutex
deriving DecidableEq

/-- What the threads share: `cnt` is `spinlock_cnt` and `mutex_cnt`, each under its lock. -/
structure Data (n : Nat) where
  unprotected : Int
  atomicCnt : Int
  cnt : Lock → Int
  owner : Lock → Option (Fin n)

/-- The places in round `i` of the loop. -/
inductive Loc where
  /-- At the test of the loop. -/
  | forTest (i : Nat)
  /-- Before `unprotected` is read. -/
  | loadUnprotected (i : Nat)
  /-- Before `unprotected` is written. -/
  | storeUnprotected (i : Nat) (v : Int)
  /-- Before `atomic_inc`. -/
  | atomicInc (i : Nat)
  /-- Before the lock is taken. -/
  | lock (m : Lock) (i : Nat)
  /-- Before the counter of the lock is read. -/
  | load (m : Lock) (i : Nat)
  /-- Before the counter of the lock is written. -/
  | store (m : Lock) (i : Nat) (v : Int)
  /-- Before the lock is released. -/
  | unlock (m : Lock) (i : Nat)
deriving DecidableEq

/-- Where `worker_fn` goes on after it has released a lock. -/
def afterUnlock (i : Nat) : Lock → Loc
  | .mySpinlock => .lock .myMutex i
  | .myMutex => .forTest (i + 1)

/-- `worker_fn`, for `NUM_ITERATIONS`; it never asks whether it should stop. The kernel is compiled so
that an `int` wraps. -/
def workerFn (numIterations : Nat) (k : Fin n) (_shouldStop : Bool) :
    Loc → Data n → Option (Option Loc × Data n)
  | .forTest i, s => some (if i < numIterations then some (.loadUnprotected i) else none, s)
  | .loadUnprotected i, s => some (some (.storeUnprotected i s.unprotected), s)
  | .storeUnprotected i v, s =>
    some (some (.atomicInc i), { s with unprotected := cInt (v + 1) })
  | .atomicInc i, s =>
    some (some (.lock .mySpinlock i), { s with atomicCnt := cInt (s.atomicCnt + 1) })
  | .lock m i, s =>
    if s.owner m = none then
      some (some (.load m i), { s with owner := Function.update s.owner m (some k) })
    else none
  | .load m i, s => some (some (.store m i (s.cnt m)), s)
  | .store m i v, s =>
    some (some (.unlock m i), { s with cnt := Function.update s.cnt m (cInt (v + 1)) })
  | .unlock m i, s =>
    some (some (afterUnlock i m), { s with owner := Function.update s.owner m none })

/-- The places of `sync_demo_init`. -/
inductive InitLoc where
  /-- Before `kthread_run` of thread `k`. -/
  | create (k : Nat)
  /-- Before `kthread_stop` of thread `k`. -/
  | stop (k : Nat)
  /-- In `kthread_stop` of thread `k`. -/
  | join (k : Nat)
  /-- The results are read. -/
  | results
deriving DecidableEq

/-- The workers, the init function and what they share. -/
structure State (n : Nat) where
  threads : Fin n → Thread Loc
  init : InitLoc
  data : Data n

/-- One step of `sync_demo_init`. -/
def syncDemoInit (S : State n) : Option (State n) :=
  match S.init with
  | .create k =>
    if hk : k < n then
      some { S with
        threads := Function.update S.threads ⟨k, hk⟩ .created
        init := .create (k + 1) }
    else some { S with init := .stop 0 }
  | .stop k =>
    if hk : k < n then
      some { S with
        threads := Function.update S.threads ⟨k, hk⟩ (S.threads ⟨k, hk⟩).stop
        init := .join k }
    else some { S with init := .results }
  | .join k =>
    if hk : k < n then
      if (S.threads ⟨k, hk⟩).Ended then some { S with init := .stop (k + 1) } else none
    else none
  | .results => none

/-- Who makes the next step. -/
inductive Event (n : Nat) where
  | worker (k : Fin n)
  | init
deriving DecidableEq

/-- One step of the system. -/
def step (numIterations : Nat) : Machine.Step (State n) (Event n) Unit := fun S e =>
  match e with
  | .worker k =>
    ((S.threads k).step (.forTest 0) (workerFn numIterations k) S.data).map fun p =>
      ((), { S with threads := Function.update S.threads k p.1, data := p.2 })
  | .init => (syncDemoInit S).map fun S' => ((), S')

/-- Before `sync_demo_init`. -/
def start : State n where
  threads _ := .absent
  init := .create 0
  data := ⟨0, 0, fun _ => 0, fun _ => none⟩

/-- The three protected counters have counted every iteration of every worker. -/
structure Exact (numIterations : Nat) (S : State n) : Prop where
  atomicCnt : S.data.atomicCnt = numIterations * n
  cnt : ∀ m, S.data.cnt m = numIterations * n

/-- `kthread_stop` is called only for a thread that has run. -/
def HasRun (S : State n) (e : Event n) : Prop :=
  e = .init → ∀ k (hk : k < n), S.init = .stop k → (S.threads ⟨k, hk⟩).place ≠ .created

end SyncDemo
