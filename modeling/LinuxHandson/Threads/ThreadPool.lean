import LinuxHandson.Lib.CInt
import LinuxHandson.Lib.Pthread
import Mathlib.Data.Fintype.Sum
import Mathlib.Tactic.DeriveFintype

/-!
# The thread pool

`worker`, `pool_submit` and `pool_destroy` over the linked queue of tasks, as code of threads that
share the pool. The heap holds the nodes of the queue. A critical section that dereferences `NULL`
or a freed node, overflows an `int`, or uses a pool that has been freed has no result.

Beside the pool stands its history, which no code reads: the tasks in the order in which they were
submitted, and by these numbers the tasks that were dequeued and executed.
-/

namespace ThreadPool

open CLib Pthread

/-- The address of a node. -/
abbrev Addr := Nat

/-- `task_t`, whose `func` and `arg` are the task. -/
structure TaskT (τ : Type) where
  task : τ
  next : Option Addr

/-- `task_queue_t` -/
structure TaskQueue where
  head : Option Addr
  tail : Option Addr
  shutdown : Bool
  taskCount : Int

/-- `thread_pool_t`, the heap, and whether the pool itself has been freed. -/
structure Pool (τ : Type) where
  queue : TaskQueue
  tasksCompleted : Int
  heap : Addr → Option (TaskT τ)
  freed : Bool

/-- The pool that `pool_create` makes. -/
def Pool.create {τ : Type} : Pool τ := ⟨⟨none, none, false, 0⟩, 0, fun _ => none, false⟩

namespace Pool

variable {τ : Type}

/-- `malloc` of a node for the task `t`, to which the allocator gives the address `a`. -/
def newTask (p : Pool τ) (a : Addr) (t : τ) : Option (Pool τ) :=
  if (p.heap a).isNone then
    some { p with heap := Function.update p.heap a (some ⟨t, none⟩) }
  else none

/-- `t->next = next` -/
def setNext (p : Pool τ) (t : Addr) (next : Option Addr) : Option (Pool τ) :=
  (p.heap t).map fun n => { p with heap := Function.update p.heap t (some { n with next := next }) }

/-- `free(t)` -/
def free (p : Pool τ) (t : Addr) : Pool τ := { p with heap := Function.update p.heap t none }

/-- `if (tail) tail->next = task; else head = task;` -/
def linkTask (p : Pool τ) (task : Addr) : Option (Pool τ) :=
  match p.queue.tail with
  | some tail => p.setNext tail (some task)
  | none => some { p with queue := { p.queue with head := some task } }

/-- The critical section of `pool_submit`, for the node `task`. -/
def enqueue (p : Pool τ) (task : Addr) : Option (Pool τ) := do
  let p ← p.linkTask task
  let taskCount ← intArith (p.queue.taskCount + 1)
  return { p with queue := { p.queue with tail := some task, taskCount := taskCount } }

/-- What `worker` takes from the queue: the node `task` and the pool without it. -/
def dequeue (p : Pool τ) (task : Addr) : Option (Pool τ) := do
  let node ← p.heap task
  let head := node.next
  let tail := if head.isNone then none else p.queue.tail
  let taskCount ← intArith (p.queue.taskCount - 1)
  return { p with queue := { p.queue with head := head, tail := tail, taskCount := taskCount } }

end Pool

/-- What has happened to the tasks. A task is known by its number in the order of submission. -/
structure History (τ : Type) where
  submitted : List τ
  dequeued : List Nat
  executed : List (Nat × τ)
  /-- The number of the task for which the node at an address was linked last. -/
  number : Addr → Nat

namespace History

variable {τ : Type}

/-- Nothing has happened. -/
def none : History τ := ⟨[], [], [], fun _ => 0⟩

variable (h : History τ)

/-- The task `t` is submitted, its node is at `a`. -/
def submit (a : Addr) (t : τ) : History τ :=
  { h with
    submitted := h.submitted ++ [t]
    number := Function.update h.number a h.submitted.length }

/-- The task whose node is at `a` is dequeued. -/
def dequeue (a : Addr) : History τ := { h with dequeued := h.dequeued ++ [h.number a] }

/-- The task `t`, whose node is at `a`, is executed. -/
def execute (a : Addr) (t : τ) : History τ := { h with executed := h.executed ++ [(h.number a, t)] }

/-- The numbers of the tasks that have been executed. -/
def executedNumbers : List Nat := h.executed.map Prod.fst

variable (a : Addr) (t : τ)

@[simp] theorem submit_submitted : (h.submit a t).submitted = h.submitted ++ [t] := rfl
@[simp] theorem submit_dequeued : (h.submit a t).dequeued = h.dequeued := rfl
@[simp] theorem submit_executed : (h.submit a t).executed = h.executed := rfl

@[simp] theorem submit_number_self : (h.submit a t).number a = h.submitted.length :=
  Function.update_self _ _ _

theorem submit_number_of_ne {b : Addr} (hb : b ≠ a) : (h.submit a t).number b = h.number b :=
  Function.update_of_ne hb _ _

@[simp] theorem execute_executedNumbers :
    (h.execute a t).executedNumbers = h.executedNumbers ++ [h.number a] := List.map_append

end History

/-- What the threads share: the pool, the workers that have returned, and the history. -/
structure Data (n : Nat) (τ : Type) where
  pool : Pool τ
  returned : Fin n → Bool
  history : History τ

/-- The two locks. -/
inductive Mutex where
  | queue
  | stats
deriving DecidableEq

/-- `queue.cond` is the only condition variable. -/
inductive Cond where
  | cond
deriving DecidableEq

/-- The threads: the workers, the threads that submit tasks, and the one that destroys the pool. -/
inductive Thread (n : Nat) (κ : Type) where
  | worker (w : Fin n)
  | submitter (k : κ)
  | destroyer
deriving DecidableEq, Fintype

/-- The places of the code. -/
inductive Loc (τ : Type) where
  /-- `worker`, at the top of its loop. -/
  | top
  /-- `worker`, which executes the task at `task`. -/
  | running (task : Addr)
  /-- `worker`, before it counts the task that it has executed. -/
  | counting
  /-- `worker`, out of its loop. -/
  | leaving
  /-- `worker` has returned. -/
  | exited
  /-- Between two calls of `pool_submit`, with the tasks still to submit. -/
  | calling (ts : List τ)
  /-- `pool_submit`, before its critical section. -/
  | linking (task : Addr) (ts : List τ)
  /-- `pool_destroy`, before its critical section. -/
  | destroy
  /-- `pool_destroy`, before the join of thread `k`. -/
  | join (k : Nat)
  /-- `pool_destroy`, in the loop that frees the remaining tasks. -/
  | cleanup (t : Option Addr)
  /-- `pool_destroy` has returned. -/
  | destroyed
deriving DecidableEq

section Code

variable {n : Nat} {κ τ : Type}

/-- A critical section of a pool that has not been freed. -/
def onPool (body : Data n τ → Option (Exit Cond (Loc τ) (Data n τ))) (s : Data n τ) :
    Option (Exit Cond (Loc τ) (Data n τ)) :=
  if s.pool.freed then none else body s

/-- The critical section of `worker`, from its wait loop to the unlock. -/
def takeTask (s : Data n τ) : Option (Exit Cond (Loc τ) (Data n τ)) :=
  match s.pool.queue.head with
  | none =>
    if s.pool.queue.shutdown then some (.unlock .leaving s .none)
    else some (.wait .cond)
  | some task =>
    (s.pool.dequeue task).map fun p =>
      .unlock (.running task)
        { s with pool := p, history := s.history.dequeue task } .none

/-- `task->func(task->arg); free(task);` -/
def runTask (task : Addr) (s : Data n τ) : Option (Loc τ × Data n τ) :=
  (s.pool.heap task).map fun node =>
    (.counting,
      { s with pool := s.pool.free task, history := s.history.execute task node.task })

/-- `pool->tasks_completed++` -/
def countTask (s : Data n τ) : Option (Exit Cond (Loc τ) (Data n τ)) :=
  (intArith (s.pool.tasksCompleted + 1)).map fun c =>
    .unlock .top { s with pool := { s.pool with tasksCompleted := c } } .none

/-- The critical section of `pool_submit`. -/
def submitTask (task : Addr) (ts : List τ) (s : Data n τ) :
    Option (Exit Cond (Loc τ) (Data n τ)) := do
  let node ← s.pool.heap task
  let p ← s.pool.enqueue task
  return .unlock (.calling ts)
    { s with pool := p, history := s.history.submit task node.task } (.signal .cond)

/-- The critical section of `pool_destroy`. -/
def shutDown (s : Data n τ) : Option (Exit Cond (Loc τ) (Data n τ)) :=
  some (.unlock (.join 0)
    { s with pool := { s.pool with queue := { s.pool.queue with shutdown := true } } }
    (.broadcast .cond))

/-- The code of all threads. The choice of the environment is the address that `malloc` returns. -/
def code : Thread n κ → Loc τ → Act Mutex Cond Addr (Loc τ) (Data n τ)
  | .worker _, .top => .lock .queue (onPool takeTask)
  | .worker _, .running task => .plain fun _ s => runTask task s
  | .worker _, .counting => .lock .stats (onPool countTask)
  | .worker w, .leaving =>
    .plain fun _ s => some (.exited, { s with returned := Function.update s.returned w true })
  | .submitter _, .calling (t :: ts) =>
    .plain fun a s => (s.pool.newTask a t).map fun p => (.linking a ts, { s with pool := p })
  | .submitter _, .linking task ts => .lock .queue (onPool (submitTask task ts))
  | .destroyer, .destroy => .lock .queue (onPool shutDown)
  | .destroyer, .join k =>
    .plain fun _ s =>
      if h : k < n then if s.returned ⟨k, h⟩ then some (.join (k + 1), s) else none
      else some (.cleanup s.pool.queue.head, s)
  | .destroyer, .cleanup (some t) =>
    .plain fun _ s =>
      (s.pool.heap t).map fun node => (.cleanup node.next, { s with pool := s.pool.free t })
  | .destroyer, .cleanup none =>
    .plain fun _ s => some (.destroyed, { s with pool := { s.pool with freed := true } })
  | _, _ => .stop

/-- The first places of the threads: submitter `k` has the tasks `todo k` to submit. -/
def firstLoc (todo : κ → List τ) : Thread n κ → Loc τ
  | .worker _ => .top
  | .submitter k => .calling (todo k)
  | .destroyer => .destroy

/-- The places of the threads, the locks, and the pool. -/
abbrev PoolState (n : Nat) (κ τ : Type) := State (Thread n κ) Mutex Cond (Loc τ) (Data n τ)

/-- A new pool, whose workers have been started. -/
def start (todo : κ → List τ) : PoolState n κ τ :=
  .start (firstLoc todo) ⟨.create, fun _ => false, .none⟩

/-- No call of `pool_submit` is made, or has not returned, when `pool_destroy` begins. -/
def SubmitsBeforeDestroy (S : PoolState n κ τ) : Event (Thread n κ) Addr → Prop
  | .go .destroyer _ _ => S.loc .destroyer = .destroy → ∀ k, S.loc (.submitter k) = .calling []
  | _ => True

instance [Fintype κ] [DecidableEq τ] (S : PoolState n κ τ) (e : Event (Thread n κ) Addr) :
    Decidable (SubmitsBeforeDestroy S e) :=
  match e with
  | .go .destroyer _ _ => inferInstanceAs (Decidable
      (S.loc .destroyer = .destroy → ∀ k, S.loc (.submitter k) = .calling []))
  | .go (.worker _) _ _ => isTrue trivial
  | .go (.submitter _) _ _ => isTrue trivial
  | .spurious _ => isTrue trivial

end Code

end ThreadPool
