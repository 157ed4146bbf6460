import LinuxHandson.Threads.Proofs.ThreadPoolEndProofs

/-!
# The tasks of the thread pool

Where the tasks are while the pool runs, and after `pool_destroy` has joined all workers. The pool
counts the tasks in an `int`: with fewer than 2^31 of them no critical section overflows it, and with
2^31 of them the last can be executed but not counted.
-/

namespace ThreadPool

open CLib Pthread

variable {n : Nat} {κ τ : Type}

/-- In every state that any number of workers, submitting threads and one `pool_destroy` reach, with
fewer than 2^31 tasks to submit: the queue is a list of nodes under its head, tail and count; every
task that was submitted is queued once, or run by one worker, or executed once; tasks are dequeued in
the order of submission; and a thread in a critical section comes to its end. When the last join of
`pool_destroy` has returned, every task has been executed once and counted. -/
theorem pool_tasks [DecidableEq κ] [Fintype κ] (hn : 0 < n) (todo : κ → List τ)
    (hsmall : ∑ k, (todo k).length < 2 ^ 31) {S : PoolState n κ τ}
    (h : Machine.Reach (step code) SubmitsBeforeDestroy (start todo) S) :
    (S.data.pool.queue.tail = none ↔ S.data.pool.queue.head = none) ∧
    (∃ q, Linked TaskT.next S.data.pool.heap S.data.pool.queue.head q ∧
      S.data.pool.queue.tail = q.getLast? ∧ S.data.pool.queue.taskCount = q.length ∧
      ∀ k, k < S.data.history.submitted.length →
        (q.map S.data.history.number).count k + (runners S.loc S.data.history k).card +
          S.data.history.executedNumbers.count k = 1) ∧
    S.data.history.dequeued = List.range S.data.history.dequeued.length ∧
    (∀ e ∈ S.data.history.executed, S.data.history.submitted[e.1]? = some e.2) ∧
    (∀ i l m body, S.thread i = .inside l → code i l = .lock m body → (body S.data).isSome) ∧
    (S.loc .destroyer = .join n →
      S.data.history.executedNumbers.Perm (List.range S.data.history.submitted.length) ∧
        S.data.pool.tasksCompleted = S.data.history.submitted.length) := by
  obtain ⟨q, hq, hd⟩ := drain_reach hn h
  refine ⟨?_, ⟨q, hq.mem.queue.linked, hq.mem.queue.tail, hq.mem.queue.count, ?_⟩,
    hq.task.dequeued_eq, hq.task.tasks, ?_, hq.finished hn⟩
  · rw [hq.mem.queue.tail_eq_none, hq.mem.queue.head_eq_none]
  · exact fun k hk => hq.task.one_place hk
  · intro i l m body hi hc
    refine hd.body_isSome hq hsmall (i := i) (m := m) ?_
    rw [show S.loc i = l from congrArg Status.loc hi]
    exact hc

theorem pool_tasks_twoTasks :
    ∃ rs S, Machine.exec (step code) (start fun b => if b then [7] else [8]) twoTasks = some (rs, S) ∧
      S.loc .destroyer = .join 2 ∧ S.data.history.submitted = [7, 8] ∧
        S.data.history.executedNumbers.Perm [0, 1] ∧ S.data.pool.tasksCompleted = 2 := by
  have hlegal : Machine.Legal (step code) SubmitsBeforeDestroy
      (start fun b => if b then [7] else [8] : PoolState 2 Bool Nat) twoTasks := by decide +kernel
  have hend : (Machine.exec (step code) (start fun b => if b then [7] else [8] : PoolState 2 Bool Nat)
      twoTasks).map (fun p => (p.2.loc .destroyer, p.2.data.history.submitted)) =
        some (.join 2, [7, 8]) := by decide +kernel
  obtain ⟨⟨rs, S⟩, hexec, heq⟩ := Option.map_eq_some_iff.mp hend
  obtain ⟨hjoin, hsub⟩ := Prod.mk.inj heq
  obtain ⟨-, -, -, -, -, hfin⟩ :=
    pool_tasks (by decide) _ (by decide) (.exec_legal _ .init hlegal hexec)
  obtain ⟨hperm, hcount⟩ := hfin hjoin
  rw [hsub] at hperm hcount
  exact ⟨rs, S, hexec, hjoin, hsub, hperm, hcount⟩

/-! ## More tasks than an `int` counts -/

/-- One worker and one thread that submits tasks at these places, before `pool_destroy`. -/
def atWork (worker submitter : Loc Nat) : Thread 1 Unit → Loc Nat
  | .worker _ => worker
  | .submitter _ => submitter
  | .destroyer => .destroy

theorem atWork_worker (l l' l'' : Loc Nat) (w : Fin 1) :
    Function.update (atWork l l') (.worker w) l'' = atWork l'' l' := by
  funext j
  cases j with
  | worker v => rw [Subsingleton.elim v w, Function.update_self]; rfl
  | submitter k => rfl
  | destroyer => rfl

theorem atWork_submitter (l l' l'' : Loc Nat) :
    Function.update (atWork l l') (.submitter ()) l'' = atWork l l'' := by
  funext j
  cases j with
  | worker v => rfl
  | submitter k => rw [Function.update_self]; rfl
  | destroyer => rfl

/-- A pool without queued tasks, which has counted `c`. -/
def emptyPool (c : Nat) (heap : Addr → Option (TaskT Nat)) (hist : History Nat) : Data 1 Nat where
  pool := ⟨⟨none, none, false, 0⟩, c, heap, false⟩
  returned _ := false
  history := hist

section Many

variable {N k c : Nat}

/-- The states that one worker and one thread reach which submits the task 7 `N` times. -/
def ManyReach (N : Nat) : PoolState 1 Unit Nat → Prop :=
  Machine.Reach (step code) SubmitsBeforeDestroy (start fun _ => List.replicate N 7)

/-- After `k` rounds of the worker, which is at `l` with an empty queue and `c` tasks counted. -/
def AfterRounds (N k c : Nat) (l : Loc Nat) : Prop :=
  ∃ heap hist, heap 0 = none ∧ hist.submitted.length = k ∧ hist.executed.length = k ∧
    ManyReach N (.start (atWork l (.calling (List.replicate (N - k) 7))) (emptyPool c heap hist))

theorem afterRounds_zero : AfterRounds N 0 0 .top := by
  refine ⟨fun _ => none, .none, rfl, rfl, rfl, ?_⟩
  have hplaces : atWork .top (.calling (List.replicate N 7)) =
      firstLoc fun _ : Unit => List.replicate N 7 := by
    funext j
    cases j <;> rfl
  rw [Nat.sub_zero, hplaces]
  exact .init

/-- One more task is submitted, taken and executed. -/
theorem AfterRounds.run (h : AfterRounds N k c .top) (hk : k < N) :
    AfterRounds N (k + 1) c .counting := by
  obtain ⟨heap, hist, hheap, hsub, hex, h⟩ := h
  let w : Fin 1 := ⟨0, Nat.one_pos⟩
  let ts := List.replicate (N - (k + 1)) 7
  have hts : List.replicate (N - k) 7 = 7 :: ts := by
    rw [show N - k = N - (k + 1) + 1 by omega, List.replicate_succ]
  rw [hts] at h
  -- `malloc` gives the address 0
  have hnew := Reach.plain_start (i := .submitter ()) (l := .linking 0 ts)
    (t := emptyPool c (Function.update heap 0 (some ⟨7, none⟩)) hist) h 0 (fun _ => by trivial) rfl
    (by simp only [Pool.newTask, emptyPool, hheap, Option.isNone_none, if_true, Option.map_some])
  rw [atWork_submitter] at hnew
  obtain ⟨heap₁, hheap₁⟩ : ∃ heap₁, Function.update heap 0 (some (⟨7, none⟩ : TaskT Nat)) = heap₁ :=
    ⟨_, rfl⟩
  have hnode : heap₁ 0 = some ⟨7, none⟩ := by rw [← hheap₁, Function.update_self]
  rw [hheap₁] at hnew
  have hlink := Reach.section_start (i := .submitter ()) (l := .calling ts)
    (t := ⟨⟨⟨some 0, some 0, false, 1⟩, c, heap₁, false⟩, fun _ => false, hist.submit 0 7⟩)
    hnew 0 (fun _ => by trivial) rfl
    (by simp [onPool, submitTask, emptyPool, hnode, Pool.enqueue, Pool.linkTask]; rfl)
  rw [atWork_submitter] at hlink
  have htake := Reach.section_start (i := .worker w) (l := .running 0)
    (t := emptyPool c heap₁ ((hist.submit 0 7).dequeue 0)) hlink 0 (fun _ => by trivial) rfl
    (by simp [onPool, takeTask, emptyPool, hnode, Pool.dequeue]; rfl)
  rw [atWork_worker] at htake
  have hrun := Reach.plain_start (i := .worker w) (l := .counting)
    (t := emptyPool c (Function.update heap₁ 0 none) (((hist.submit 0 7).dequeue 0).execute 0 7))
    htake 0 (fun _ => by trivial) rfl (by simp [runTask, emptyPool, hnode, Pool.free])
  rw [atWork_worker] at hrun
  refine ⟨_, _, Function.update_self _ _ _, ?_, ?_, hrun⟩
  · exact List.length_append.trans (congrArg (· + 1) hsub)
  · exact List.length_append.trans (congrArg (· + 1) hex)

/-- The worker counts a task. -/
theorem AfterRounds.count (h : AfterRounds N k c .counting) (hc : c + 1 < 2 ^ 31) :
    AfterRounds N k (c + 1) .top := by
  obtain ⟨heap, hist, hheap, hsub, hex, h⟩ := h
  have hint : intArith ((c : Int) + 1) = some ((c + 1 : Nat) : Int) := intArith_natCast hc
  have hcount := Reach.section_start (i := .worker ⟨0, Nat.one_pos⟩) (l := .top)
    (t := emptyPool (c + 1) heap hist) h 0 (fun _ => by trivial) rfl
    (by simp only [onPool, countTask, emptyPool, hint]; rfl)
  rw [atWork_worker] at hcount
  exact ⟨heap, hist, hheap, hsub, hex, hcount⟩

theorem afterRounds (k : Nat) : k ≤ N → k < 2 ^ 31 → AfterRounds N k k .top := by
  induction k with
  | zero => exact fun _ _ => afterRounds_zero
  | succ k ih =>
    intro hk hlt
    exact ((ih (by omega) (by omega)).run (by omega)).count hlt

end Many

/-- One worker, and one thread that submits 2^31 tasks. All of them are submitted and executed, but the
critical section in which the worker counts the last has no result: `tasks_completed` is 2^31 - 1, and
it is never 2^31. -/
theorem pool_tasks_overflow :
    let submitted : PoolState 1 Unit Nat := start fun _ => List.replicate (2 ^ 31) 7
    let worker : Thread 1 Unit := .worker ⟨0, Nat.one_pos⟩
    (∃ S, Machine.Reach (step code) SubmitsBeforeDestroy submitted S ∧
      S.data.history.submitted.length = 2 ^ 31 ∧ S.data.history.executed.length = 2 ^ 31 ∧
      S.data.pool.tasksCompleted = 2 ^ 31 - 1 ∧
      S.thread worker = .inside .counting ∧ onPool countTask S.data = none) ∧
    ∀ S, Machine.Reach (step code) SubmitsBeforeDestroy submitted S →
      S.data.pool.tasksCompleted < 2 ^ 31 := by
  intro submitted worker
  refine ⟨?_, fun S hS => ?_⟩
  · obtain ⟨heap, hist, -, hsub, hex, h⟩ :=
      (afterRounds (N := 2 ^ 31) (2 ^ 31 - 1) (by decide) (by decide)).run (by decide)
    have hin := h.next (c := .go worker 0 ∅) (by trivial) (acquire_start 0 rfl)
    refine ⟨_, hin, hsub, hex, rfl, ?_, ?_⟩
    · simp only [Function.update_self]
      rfl
    · simp only [onPool, countTask, emptyPool]
      rw [intArith_none (by decide)]
      rfl
  · obtain ⟨q, hq, hd⟩ := drain_reach Nat.one_pos hS
    exact hd.counted.2

end ThreadPool
