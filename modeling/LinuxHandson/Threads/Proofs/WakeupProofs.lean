import LinuxHandson.Threads.Proofs.TaskQueueProofs

/-!
# Wake-ups in the thread pool

A worker that has taken a task looks at the queue again before it sleeps, a submitted task is
signalled, and the shutdown is broadcast. So neither a task nor the shutdown is ever left to workers
that all sleep.
-/

namespace ThreadPool

open CLib Pthread

variable {n : Nat} {κ τ : Type}

/-- The places from which `worker` comes back to its wait loop. -/
def Loc.inLoop : Loc τ → Bool
  | .top => true
  | .running _ => true
  | .counting => true
  | _ => false

/-- A worker in its loop attends to the queue. -/
def AttendsQueue (i : Thread n κ) (l : Loc τ) : Prop := (∃ w, i = .worker w) ∧ l.inLoop = true

/-- Whether the queue has a task. -/
def hasTask (s : Data n τ) : Nat := if s.pool.queue.head.isNone then 0 else 1

theorem hasTask_le (s : Data n τ) : hasTask s ≤ 1 := by
  unfold hasTask
  split <;> omega

theorem enqueue_shutdown {p p' : Pool τ} {a : Addr} (h : p.enqueue a = some p') :
    p'.queue.shutdown = p.queue.shutdown := by
  obtain ⟨p1, h1, h⟩ := Option.bind_eq_some_iff.mp h
  obtain ⟨c, -, h⟩ := Option.bind_eq_some_iff.mp h
  cases h
  show p1.queue.shutdown = _
  unfold Pool.linkTask at h1
  split at h1
  · obtain ⟨node, -, rfl⟩ := Option.map_eq_some_iff.mp h1
    rfl
  · cases h1
    rfl

theorem dequeue_shutdown {p p' : Pool τ} {a : Addr} (h : p.dequeue a = some p') :
    p'.queue.shutdown = p.queue.shutdown := by
  obtain ⟨node, -, h⟩ := Option.bind_eq_some_iff.mp h
  obtain ⟨c, -, h⟩ := Option.bind_eq_some_iff.mp h
  cases h
  rfl

/-- What each step does to the queue is covered: a new task by a signal, and a worker that leaves its
loop leaves no task. -/
theorem change_covers {i : Thread n κ} {l l' : Loc τ} {s s' : Data n τ} {N : Notify Cond}
    (h : Change s i l l' s' N) :
    Covers .cond hasTask (AttendsQueue i l) (AttendsQueue i l') s s' N := by
  cases h with
  | new h =>
    obtain ⟨-, rfl⟩ := newTask_ok h
    exact .inr (.inl ⟨le_rfl, fun ⟨⟨w, hw⟩, _⟩ => by cases hw⟩)
  | link hn h =>
    refine .inr (.inr ⟨?_, (fun ⟨⟨w, hw⟩, _⟩ => by cases hw), .inl rfl⟩)
    exact (hasTask_le _).trans (Nat.le_add_left 1 _)
  | @take w a p hh h =>
    have hone : hasTask s = 1 := by simp [hasTask, hh]
    exact .inr (.inl ⟨hone ▸ hasTask_le _, fun _ => ⟨⟨w, rfl⟩, rfl⟩⟩)
  | quit hh hs =>
    have hzero : hasTask s = 0 := by simp [hasTask, hh]
    exact .inl (by omega)
  | @run w a node hn => exact .inr (.inl ⟨le_rfl, fun _ => ⟨⟨w, rfl⟩, rfl⟩⟩)
  | @count w => exact .inr (.inl ⟨le_rfl, fun _ => ⟨⟨w, rfl⟩, rfl⟩⟩)
  | ret => exact .inr (.inl ⟨le_rfl, fun ⟨_, hl⟩ => by cases hl⟩)
  | shut => exact .inr (.inl ⟨le_rfl, fun ⟨_, hl⟩ => by cases hl⟩)
  | join hk hr => exact .inr (.inl ⟨le_rfl, fun ⟨_, hl⟩ => by cases hl⟩)
  | joined hk => exact .inr (.inl ⟨le_rfl, fun ⟨_, hl⟩ => by cases hl⟩)
  | clean hn => exact .inr (.inl ⟨le_rfl, fun ⟨_, hl⟩ => by cases hl⟩)
  | freed => exact .inr (.inl ⟨le_rfl, fun ⟨_, hl⟩ => by cases hl⟩)

/-- Only `pool_destroy` sets `shutdown`, and it broadcasts. -/
theorem change_announced {i : Thread n κ} {l l' : Loc τ} {s s' : Data n τ} {N : Notify Cond}
    (h : Change s i l l' s' N) (hs : s'.pool.queue.shutdown = true) :
    s.pool.queue.shutdown = true ∨ N = .broadcast .cond := by
  cases h with
  | new h =>
    obtain ⟨-, rfl⟩ := newTask_ok h
    exact .inl hs
  | link hn h => exact .inl ((enqueue_shutdown h).symm.trans hs)
  | take hh h => exact .inl ((dequeue_shutdown h).symm.trans hs)
  | shut => exact .inr rfl
  | quit => exact .inl hs
  | run => exact .inl hs
  | count => exact .inl hs
  | ret => exact .inl hs
  | join => exact .inl hs
  | joined => exact .inl hs
  | clean => exact .inl hs
  | freed => exact .inl hs

theorem code_attended :
    Attended (code : Thread n κ → Loc τ → Act Mutex Cond Addr (Loc τ) (Data n τ)) .cond AttendsQueue
      hasTask where
  wait := by
    intro i l m body s d hc hb
    obtain ⟨hw, rfl, hh, -⟩ := wait_top hc hb
    exact ⟨⟨fun _ => rfl, fun _ => ⟨hw, rfl⟩⟩, fun _ => by simp [hasTask, hh]⟩
  unlock hc hb := change_covers (unlock_change hc hb)
  plain hc hf := change_covers (plain_change hc hf)

theorem code_announced :
    Announced (code : Thread n κ → Loc τ → Act Mutex Cond Addr (Loc τ) (Data n τ)) .cond
      fun s => s.pool.queue.shutdown = true where
  wait := by
    intro i l m body s hc hb hs
    obtain ⟨-, -, -, hno⟩ := wait_top hc hb
    rw [hno] at hs
    cases hs
  unlock hc hb hs := change_announced (unlock_change hc hb) hs
  plain hc hf hs := (change_announced (plain_change hc hf) hs).resolve_right (by simp)

section Sleepers

variable [DecidableEq κ] [Fintype κ]

/-- In no reachable state is a task queued, or the shutdown set, while some worker has not exited and
all workers that have not exited sleep without having been signalled. -/
theorem no_lost_wakeup_pool (todo : κ → List τ) {S : PoolState n κ τ}
    (h : Machine.Reach (step code) (fun _ _ => True) (start todo) S) :
    ¬ ((S.data.pool.queue.head ≠ none ∨ S.data.pool.queue.shutdown = true) ∧
      (∃ w, S.loc (.worker w) ≠ .exited) ∧
      ∀ w, S.loc (.worker w) ≠ .exited → (S.thread (.worker w)).On .cond) := by
  rintro ⟨hready, ⟨w, hw⟩, hall⟩
  have hsleep := hall w hw
  rcases hready with hhead | hshut
  · have hone : 0 < hasTask S.data := by
      rcases hq : S.data.pool.queue.head with _ | a
      · exact absurd hq hhead
      · simp [hasTask, hq]
    obtain ⟨j, ⟨⟨v, rfl⟩, hloop⟩, hawake⟩ := code_attended.no_lost_wakeup h hone hsleep
    refine hawake .cond (hall v ?_)
    intro hv
    rw [hv] at hloop
    cases hloop
  · exact code_announced.no_sleeper h hshut _ hsleep

/-- A task that is submitted while the worker sleeps. -/
def submitRun : List (Event (Thread 1 Unit) Addr) :=
  let w : Thread 1 Unit := .worker ⟨0, Nat.one_pos⟩
  let submitter : Event (Thread 1 Unit) Addr := .go (.submitter ()) 5 ∅
  [.go w 0 ∅, .go w 0 ∅, submitter, submitter, .go (.submitter ()) 0 {w}]

theorem no_lost_wakeup_pool_submitRun :
    ∃ rs S, Machine.exec (step code) (start fun _ => [7] : PoolState 1 Unit Nat) submitRun =
        some (rs, S) ∧
      S.data.pool.queue.head = some 5 ∧ ¬ (S.thread (.worker 0)).On .cond := by
  have hend : (Machine.exec (step code) (start fun _ => [7] : PoolState 1 Unit Nat) submitRun).map
      (fun p => (p.2.data.pool.queue.head, p.2.loc (.worker 0))) = some (some 5, .top) := by
    decide
  obtain ⟨⟨rs, S⟩, hexec, heq⟩ := Option.map_eq_some_iff.mp hend
  obtain ⟨hhead, htop⟩ := Prod.mk.inj heq
  have h := no_lost_wakeup_pool _ (.exec _ .init hexec)
  refine ⟨rs, S, hexec, hhead, fun hsleep => h ⟨.inl (by rw [hhead]; simp), ⟨0, ?_⟩, ?_⟩⟩
  · rw [htop]
    simp
  · intro w _
    rw [Subsingleton.elim w 0]
    exact hsleep

/-- A worker that waits, is woken by the shutdown, and returns. -/
def shutdownRun : List (Event (Thread 1 Unit) Addr) :=
  let w : Thread 1 Unit := .worker ⟨0, Nat.one_pos⟩
  let worker : Event (Thread 1 Unit) Addr := .go w 0 ∅
  [worker, worker, .go .destroyer 0 ∅, .go .destroyer 0 {w}, worker, worker, worker]

/-- When all workers have exited, the shutdown is set and no worker that has not exited is awake. -/
theorem shutdown_all_exited :
    ∃ rs S, Machine.exec (step code) (start fun _ => [] : PoolState 1 Unit Nat) shutdownRun =
        some (rs, S) ∧
      (S.data.pool.queue.head ≠ none ∨ S.data.pool.queue.shutdown = true) ∧
        ∀ w, S.loc (.worker w) ≠ .exited → (S.thread (.worker w)).On .cond := by
  have hend : (Machine.exec (step code) (start fun _ => [] : PoolState 1 Unit Nat) shutdownRun).map
      (fun p => (p.2.data.pool.queue.shutdown, p.2.loc (.worker 0))) = some (true, .exited) := by
    decide
  obtain ⟨⟨rs, S⟩, hexec, heq⟩ := Option.map_eq_some_iff.mp hend
  obtain ⟨hshut, hexit⟩ := Prod.mk.inj heq
  refine ⟨rs, S, hexec, .inr hshut, ?_⟩
  intro w hw
  rw [Subsingleton.elim w 0] at hw
  exact absurd hexit hw

end Sleepers

end ThreadPool
