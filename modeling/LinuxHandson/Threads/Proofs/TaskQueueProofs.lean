import LinuxHandson.Lib.LinkedList
import LinuxHandson.Threads.ThreadPool

/-!
# The queue of the thread pool

What each step of the threads does to the pool, and two invariants of the threads' places and the
shared data: who has which nodes, and where the tasks are.
-/

namespace ThreadPool

open CLib Pthread

variable {n : Nat} {κ τ : Type}

/-! ## The queue -/

/-- The nodes of the queue are those at `q`, in order. -/
structure QueueOk (p : Pool τ) (q : List Addr) : Prop where
  linked : Linked TaskT.next p.heap p.queue.head q
  nodup : q.Nodup
  tail : p.queue.tail = q.getLast?
  count : p.queue.taskCount = q.length

namespace QueueOk

variable {p p' : Pool τ} {q : List Addr} {a : Addr}

theorem head_eq_none (h : QueueOk p q) : p.queue.head = none ↔ q = [] := h.linked.eq_nil_iff.symm

theorem tail_eq_none (h : QueueOk p q) : p.queue.tail = none ↔ q = [] := by
  rw [h.tail, List.getLast?_eq_none_iff]

/-- A pool whose queue is the same, and whose nodes of the queue are. -/
theorem same (h : QueueOk p q) (hheap : ∀ b ∈ q, p'.heap b = p.heap b)
    (hhead : p'.queue.head = p.queue.head) (htail : p'.queue.tail = p.queue.tail)
    (hcount : p'.queue.taskCount = p.queue.taskCount) : QueueOk p' q where
  linked := by
    rw [hhead]
    exact h.linked.congr hheap
  nodup := h.nodup
  tail := htail.trans h.tail
  count := hcount.trans h.count

end QueueOk

/-- What a critical section of the queue leaves as it was. -/
structure SamePool (p p' : Pool τ) : Prop where
  shutdown : p'.queue.shutdown = p.queue.shutdown
  completed : p'.tasksCompleted = p.tasksCompleted
  task : ∀ b, (p'.heap b).map TaskT.task = (p.heap b).map TaskT.task

theorem enqueue_ok {p p' : Pool τ} {q : List Addr} {a : Addr} {t : τ} (h : QueueOk p q)
    (ha : a ∉ q) (hnew : p.heap a = some ⟨t, none⟩) (he : p.enqueue a = some p') :
    QueueOk p' (q ++ [a]) ∧ SamePool p p' ∧ ∀ b ∉ q, p'.heap b = p.heap b := by
  have hnodup : (q ++ [a]).Nodup := by
    rw [List.nodup_append]
    refine ⟨h.nodup, List.nodup_singleton a, ?_⟩
    rintro b hb c hc rfl
    exact ha (List.mem_singleton.mp hc ▸ hb)
  have hcount : ((q ++ [a]).length : Int) = q.length + 1 := by
    rw [List.length_append]
    rfl
  rcases List.eq_nil_or_concat' q with rfl | ⟨r, z, rfl⟩
  · have htail : p.queue.tail = none := h.tail
    simp only [Pool.enqueue, Pool.linkTask, htail, h.count, Option.bind_eq_bind,
      Option.bind_some] at he
    obtain ⟨c, hc, he⟩ := Option.bind_eq_some_iff.mp he
    obtain rfl := eq_of_intArith hc
    cases he
    refine ⟨⟨⟨rfl, _, hnew, rfl⟩, hnodup, rfl, ?_⟩, ⟨rfl, rfl, fun _ => rfl⟩, fun _ _ => rfl⟩
    exact hcount.symm
  · have htail : p.queue.tail = some z := by
      rw [h.tail]
      exact List.getLast?_concat
    have hz : z ∈ r ++ [z] := List.mem_append_right r (List.mem_singleton_self z)
    obtain ⟨node, hnode⟩ := Option.isSome_iff_exists.mp (h.linked.isSome hz)
    simp only [Pool.enqueue, Pool.linkTask, htail, Pool.setNext, hnode, Option.map_some, h.count,
      Option.bind_eq_bind, Option.bind_some] at he
    obtain ⟨c, hc, he⟩ := Option.bind_eq_some_iff.mp he
    obtain rfl := eq_of_intArith hc
    cases he
    have haz : a ≠ z := by
      rintro rfl
      exact ha (by simp)
    have hzr : ∀ d ∈ r, d ≠ z := by
      rintro d hd rfl
      exact (List.nodup_append.mp h.nodup).2.2 d hd d (by simp) rfl
    refine ⟨⟨?_, hnodup, ?_, hcount.symm⟩, ⟨rfl, rfl, ?_⟩, ?_⟩
    · refine h.linked.append (b := { node with next := some a }) (c := ⟨t, none⟩) ?_ ?_ rfl ?_ rfl
      · intro d hd
        exact Function.update_of_ne (hzr d hd) _ _
      · exact Function.update_self _ _ _
      · rw [← hnew]
        exact Function.update_of_ne haz _ _
    · exact List.getLast?_concat.symm
    · intro b
      by_cases hb : b = z
      · subst hb
        simp [hnode]
      · simp [hb]
    · intro b hb
      refine Function.update_of_ne ?_ _ _
      rintro rfl
      exact hb (by simp)

theorem dequeue_ok {p p' : Pool τ} {q : List Addr} {a : Addr} (h : QueueOk p q)
    (ha : p.queue.head = some a) (hd : p.dequeue a = some p') :
    ∃ r, q = a :: r ∧ QueueOk p' r ∧ SamePool p p' ∧ p'.heap = p.heap := by
  rcases q with _ | ⟨b, r⟩
  · rw [h.head_eq_none.mpr rfl] at ha
    cases ha
  obtain rfl : b = a := by
    have := h.linked.head_eq
    rw [ha] at this
    exact (Option.some.inj this).symm
  obtain ⟨-, node, hnode, hr⟩ := h.linked
  simp only [Pool.dequeue, hnode, Option.bind_eq_bind, Option.bind_some] at hd
  obtain ⟨c, hc, hd⟩ := Option.bind_eq_some_iff.mp hd
  obtain rfl := eq_of_intArith hc
  cases hd
  refine ⟨r, rfl, ⟨hr, h.nodup.of_cons, ?_, ?_⟩, ⟨rfl, rfl, fun _ => rfl⟩, rfl⟩
  · -- the tail is reset with the last node
    show (if node.next.isNone then none else p.queue.tail) = r.getLast?
    rw [h.tail, hr.head_eq]
    cases r with
    | nil => rfl
    | cons d r => rfl
  · show p.queue.taskCount - 1 = r.length
    rw [h.count, List.length_cons]
    omega

/-! ## The steps -/

/-- What the steps of the code do to the shared data, one constructor for each. -/
inductive Change (s : Data n τ) :
    Thread n κ → Loc τ → Loc τ → Data n τ → Notify Cond → Prop where
  /-- `pool_submit` allocates a node. -/
  | new {k : κ} {a : Addr} {t : τ} {ts : List τ} {p : Pool τ} (h : s.pool.newTask a t = some p) :
      Change s (.submitter k) (.calling (t :: ts)) (.linking a ts) { s with pool := p } .none
  /-- `pool_submit` appends its node to the queue. -/
  | link {k : κ} {a : Addr} {ts : List τ} {node : TaskT τ} {p : Pool τ}
      (hn : s.pool.heap a = some node) (h : s.pool.enqueue a = some p) :
      Change s (.submitter k) (.linking a ts) (.calling ts)
        { s with pool := p, history := s.history.submit a node.task } (.signal .cond)
  /-- `worker` takes a task. -/
  | take {w : Fin n} {a : Addr} {p : Pool τ} (hh : s.pool.queue.head = some a)
      (h : s.pool.dequeue a = some p) :
      Change s (.worker w) .top (.running a)
        { s with pool := p, history := s.history.dequeue a } .none
  /-- `worker` leaves its loop. -/
  | quit {w : Fin n} (hh : s.pool.queue.head = none) (hs : s.pool.queue.shutdown = true) :
      Change s (.worker w) .top .leaving s .none
  /-- `worker` executes its task and frees the node. -/
  | run {w : Fin n} {a : Addr} {node : TaskT τ} (hn : s.pool.heap a = some node) :
      Change s (.worker w) (.running a) .counting
        { s with pool := s.pool.free a, history := s.history.execute a node.task } .none
  /-- `worker` counts its task. -/
  | count {w : Fin n} (h : s.pool.tasksCompleted + 1 < 2 ^ 31) :
      Change s (.worker w) .counting .top
        { s with pool := { s.pool with tasksCompleted := s.pool.tasksCompleted + 1 } } .none
  /-- `worker` returns. -/
  | ret {w : Fin n} :
      Change s (.worker w) .leaving .exited
        { s with returned := Function.update s.returned w true } .none
  /-- `pool_destroy` sets `shutdown`. -/
  | shut :
      Change s .destroyer .destroy (.join 0)
        { s with pool := { s.pool with queue := { s.pool.queue with shutdown := true } } }
        (.broadcast .cond)
  /-- `pool_destroy` joins a worker that has returned. -/
  | join {k : Nat} (hk : k < n) (hr : s.returned ⟨k, hk⟩ = true) :
      Change s .destroyer (.join k) (.join (k + 1)) s .none
  /-- The last join has returned. -/
  | joined {k : Nat} (hk : n ≤ k) :
      Change s .destroyer (.join k) (.cleanup s.pool.queue.head) s .none
  /-- `pool_destroy` frees a task that is left. -/
  | clean {t : Addr} {node : TaskT τ} (hn : s.pool.heap t = some node) :
      Change s .destroyer (.cleanup (some t)) (.cleanup node.next) { s with pool := s.pool.free t }
        .none
  /-- `pool_destroy` frees the pool. -/
  | freed :
      Change s .destroyer (.cleanup none) .destroyed
        { s with pool := { s.pool with freed := true } } .none

theorem plain_change {i : Thread n κ} {l l' : Loc τ} {x : Addr} {s s' : Data n τ}
    {f : Addr → Data n τ → Option (Loc τ × Data n τ)} (hc : code i l = .plain f)
    (hf : f x s = some (l', s')) : Change s i l l' s' .none := by
  unfold code at hc
  split at hc
  · cases hc
  · cases hc
    obtain ⟨node, hn, heq⟩ := Option.map_eq_some_iff.mp hf
    cases heq
    exact .run hn
  · cases hc
  · cases hc
    cases hf
    exact .ret
  · cases hc
    obtain ⟨p, hp, heq⟩ := Option.map_eq_some_iff.mp hf
    cases heq
    exact .new hp
  · cases hc
  · cases hc
  · cases hc
    dsimp only at hf
    split at hf
    · split at hf
      · cases hf
        exact .join _ (by assumption)
      · cases hf
    · next hk =>
      cases hf
      exact .joined (Nat.le_of_not_lt hk)
  · cases hc
    obtain ⟨node, hn, heq⟩ := Option.map_eq_some_iff.mp hf
    cases heq
    exact .clean hn
  · cases hc
    cases hf
    exact .freed
  · cases hc

theorem onPool_some {body : Data n τ → Option (Exit Cond (Loc τ) (Data n τ))} {s : Data n τ}
    {e : Exit Cond (Loc τ) (Data n τ)} (h : onPool body s = some e) : body s = some e := by
  unfold onPool at h
  split at h
  · cases h
  · exact h

/-- What is done with a mutex locked. -/
theorem lock_cases {i : Thread n κ} {l : Loc τ} {m : Mutex}
    {body : Data n τ → Option (Exit Cond (Loc τ) (Data n τ))} (hc : code i l = .lock m body) :
    (∃ w, i = .worker w ∧ l = .top ∧ body = onPool takeTask) ∨
    (∃ w, i = .worker w ∧ l = .counting ∧ body = onPool countTask) ∨
    (∃ k a ts, i = .submitter k ∧ l = .linking a ts ∧ body = onPool (submitTask a ts)) ∨
    (i = .destroyer ∧ l = .destroy ∧ body = onPool shutDown) := by
  unfold code at hc
  split at hc
  · cases hc
    exact .inl ⟨_, rfl, rfl, rfl⟩
  · cases hc
  · cases hc
    exact .inr (.inl ⟨_, rfl, rfl, rfl⟩)
  · cases hc
  · cases hc
  · cases hc
    exact .inr (.inr (.inl ⟨_, _, _, rfl, rfl, rfl⟩))
  · cases hc
    exact .inr (.inr (.inr ⟨rfl, rfl, rfl⟩))
  · cases hc
  · cases hc
  · cases hc
  · cases hc

theorem unlock_change {i : Thread n κ} {l l' : Loc τ} {m : Mutex} {s s' : Data n τ}
    {body : Data n τ → Option (Exit Cond (Loc τ) (Data n τ))} {N : Notify Cond}
    (hc : code i l = .lock m body) (hb : body s = some (.unlock l' s' N)) :
    Change s i l l' s' N := by
  rcases lock_cases hc with ⟨w, rfl, rfl, rfl⟩ | ⟨w, rfl, rfl, rfl⟩ | ⟨k, a, ts, rfl, rfl, rfl⟩ |
    ⟨rfl, rfl, rfl⟩
  · have hb := onPool_some hb
    unfold takeTask at hb
    split at hb
    · split at hb
      · cases hb
        exact .quit (by assumption) (by assumption)
      · cases hb
    · next task hh =>
      obtain ⟨p, hp, heq⟩ := Option.map_eq_some_iff.mp hb
      cases heq
      exact .take hh hp
  · obtain ⟨c, hc, heq⟩ := Option.map_eq_some_iff.mp (onPool_some hb)
    cases heq
    have hlt := lt_of_intArith hc
    obtain rfl := eq_of_intArith hc
    exact .count hlt
  · obtain ⟨node, hn, hb⟩ := Option.bind_eq_some_iff.mp (onPool_some hb)
    obtain ⟨p, hp, hb⟩ := Option.bind_eq_some_iff.mp hb
    cases hb
    exact .link hn hp
  · have hb := onPool_some hb
    cases hb
    exact .shut

/-- Only `worker` waits, at the top of its loop, for a task or the shutdown. -/
theorem wait_top {i : Thread n κ} {l : Loc τ} {m : Mutex} {s : Data n τ}
    {body : Data n τ → Option (Exit Cond (Loc τ) (Data n τ))} {c : Cond}
    (hc : code i l = .lock m body) (hb : body s = some (.wait c)) :
    (∃ w, i = .worker w) ∧ l = .top ∧ s.pool.queue.head = none ∧
      s.pool.queue.shutdown = false := by
  rcases lock_cases hc with ⟨w, rfl, rfl, rfl⟩ | ⟨w, rfl, rfl, rfl⟩ | ⟨k, a, ts, rfl, rfl, rfl⟩ |
    ⟨rfl, rfl, rfl⟩
  · have hb := onPool_some hb
    unfold takeTask at hb
    split at hb
    · next hh =>
      split at hb
      · cases hb
      · next hs => exact ⟨⟨w, rfl⟩, rfl, hh, by simpa using hs⟩
    · obtain ⟨p, hp, heq⟩ := Option.map_eq_some_iff.mp hb
      cases heq
  · obtain ⟨c, hc, heq⟩ := Option.map_eq_some_iff.mp (onPool_some hb)
    cases heq
  · obtain ⟨node, hn, hb⟩ := Option.bind_eq_some_iff.mp (onPool_some hb)
    obtain ⟨p, hp, hb⟩ := Option.bind_eq_some_iff.mp hb
    cases hb
  · have hb := onPool_some hb
    cases hb

/-! ## The nodes -/

/-- The node that a thread at this place has to itself. -/
def Loc.held : Loc τ → Option Addr
  | .running a => some a
  | .linking a _ => some a
  | _ => none

/-- The nodes that threads have to themselves are allocated, different, and not in the queue. -/
structure MemInv (L : Thread n κ → Loc τ) (p : Pool τ) (q : List Addr) : Prop where
  queue : QueueOk p q
  held : ∀ i a, (L i).held = some a → (p.heap a).isSome ∧ a ∉ q
  unique : ∀ i j a, (L i).held = some a → (L j).held = some a → i = j
  fresh : ∀ i a ts, L i = .linking a ts → ∃ t, p.heap a = some ⟨t, none⟩

section MemInv

variable [DecidableEq κ] {L : Thread n κ → Loc τ} {p p' : Pool τ} {q : List Addr}

/-- Where a place is after one thread has moved. -/
theorem update_cases {i j : Thread n κ} {l l' : Loc τ} (h : Function.update L i l' j = l) :
    (j = i ∧ l' = l) ∨ (j ≠ i ∧ L j = l) := by
  by_cases hj : j = i
  · subst hj
    rw [Function.update_self] at h
    exact .inl ⟨rfl, h⟩
  · rw [Function.update_of_ne hj] at h
    exact .inr ⟨hj, h⟩

theorem held_update {i j : Thread n κ} {l' : Loc τ} {a : Addr}
    (h : (Function.update L i l' j).held = some a) :
    (j = i ∧ l'.held = some a) ∨ (j ≠ i ∧ (L j).held = some a) := by
  have hloc : Function.update L i l' j = Function.update L i l' j := rfl
  rcases update_cases hloc with ⟨hj, hl⟩ | ⟨hj, hl⟩
  · exact .inl ⟨hj, by rw [hl]; exact h⟩
  · exact .inr ⟨hj, by rw [hl]; exact h⟩

/-- A node that no thread has goes to one of them. -/
theorem unique_update (h : ∀ i j a, (L i).held = some a → (L j).held = some a → i = j)
    {i j k : Thread n κ} {l' : Loc τ} {a b : Addr} (hl : l'.held = some a)
    (hnot : ∀ j, (L j).held ≠ some a) (hj : (Function.update L i l' j).held = some b)
    (hk : (Function.update L i l' k).held = some b) : j = k := by
  rcases held_update hj with ⟨hji, hj⟩ | ⟨-, hj⟩
  · obtain rfl : a = b := Option.some.inj (hl.symm.trans hj)
    rcases held_update hk with ⟨hki, -⟩ | ⟨-, hk⟩
    · rw [hji, hki]
    · exact absurd hk (hnot k)
  · rcases held_update hk with ⟨-, hk⟩ | ⟨-, hk⟩
    · obtain rfl : a = b := Option.some.inj (hl.symm.trans hk)
      exact absurd hj (hnot j)
    · exact h j k b hj hk

/-- A thread that gives up what it holds, in a step that leaves the queue and the nodes that others
hold as they are. -/
theorem MemInv.drop (h : MemInv L p q) {i : Thread n κ} {l' : Loc τ} (hl : l'.held = none)
    (hq : QueueOk p' q) (hheap : ∀ b, (L i).held ≠ some b → p'.heap b = p.heap b) :
    MemInv (Function.update L i l') p' q := by
  have hback : ∀ j a, (Function.update L i l' j).held = some a →
      j ≠ i ∧ (L j).held = some a ∧ p'.heap a = p.heap a := by
    intro j a hj
    rcases held_update hj with ⟨-, hj⟩ | ⟨hji, hj⟩
    · rw [hl] at hj
      cases hj
    · exact ⟨hji, hj, hheap a fun hi => hji (h.unique j i a hj hi)⟩
  refine ⟨hq, ?_, ?_, ?_⟩
  · intro j a hj
    obtain ⟨-, hj, ha⟩ := hback j a hj
    rw [ha]
    exact h.held j a hj
  · intro j k a hj hk
    exact h.unique j k a (hback j a hj).2.1 (hback k a hk).2.1
  · intro j a ts hj
    obtain ⟨hji, -, ha⟩ := hback j a (by rw [hj]; rfl)
    rw [Function.update_of_ne hji] at hj
    rw [ha]
    exact h.fresh j a ts hj

theorem newTask_ok {a : Addr} {t : τ} (h : p.newTask a t = some p') :
    p.heap a = none ∧ p' = { p with heap := Function.update p.heap a (some ⟨t, none⟩) } := by
  unfold Pool.newTask at h
  split at h
  · next hfree => exact ⟨by simpa using hfree, (Option.some.inj h).symm⟩
  · cases h

theorem MemInv.new (h : MemInv L p q) {i : Thread n κ} {a : Addr} {t : τ} {ts : List τ}
    (hnew : p.newTask a t = some p') : MemInv (Function.update L i (.linking a ts)) p' q := by
  obtain ⟨hfree, rfl⟩ := newTask_ok hnew
  have haq : a ∉ q := by
    intro ha
    have := h.queue.linked.isSome ha
    rw [hfree] at this
    cases this
  have hnot : ∀ j, (L j).held ≠ some a := by
    intro j hj
    have := (h.held j a hj).1
    rw [hfree] at this
    cases this
  have hheap : ∀ b, b ≠ a → Function.update p.heap a (some ⟨t, none⟩) b = p.heap b := fun b hb =>
    Function.update_of_ne hb _ _
  have hq : ∀ b ∈ q, Function.update p.heap a (some ⟨t, none⟩) b = p.heap b := fun b hb =>
    hheap b fun hba => haq (hba ▸ hb)
  refine ⟨h.queue.same hq rfl rfl rfl, ?_, ?_, ?_⟩
  · intro j b hj
    rcases held_update hj with ⟨-, hj⟩ | ⟨-, hj⟩
    · cases hj
      exact ⟨by simp, haq⟩
    · obtain ⟨h1, h2⟩ := h.held j b hj
      refine ⟨?_, h2⟩
      show (Function.update p.heap a (some ⟨t, none⟩) b).isSome
      rw [hheap b fun hba => hnot j (hba ▸ hj)]
      exact h1
  · intro j k b hj hk
    exact unique_update h.unique rfl hnot hj hk
  · intro j b us hj
    rcases update_cases hj with ⟨-, hl⟩ | ⟨-, hl⟩
    · cases hl
      exact ⟨t, Function.update_self _ _ _⟩
    · have hba : b ≠ a := by
        rintro rfl
        exact hnot j (by rw [hl]; rfl)
      show ∃ t', Function.update p.heap a (some ⟨t, none⟩) b = some ⟨t', none⟩
      rw [hheap b hba]
      exact h.fresh j b us hl

/-- A node moves from its thread to the queue. -/
theorem MemInv.link (h : MemInv L p q) {i : Thread n κ} {a : Addr} {ts : List τ} {l' : Loc τ}
    (hi : L i = .linking a ts) (hl : l'.held = none) (hq : QueueOk p' (q ++ [a]))
    (hheap : ∀ b ∉ q, p'.heap b = p.heap b) :
    MemInv (Function.update L i l') p' (q ++ [a]) := by
  have hia : (L i).held = some a := by rw [hi]; rfl
  have hback : ∀ j b, (Function.update L i l' j).held = some b →
      j ≠ i ∧ (L j).held = some b ∧ p'.heap b = p.heap b := by
    intro j b hj
    rcases held_update hj with ⟨-, hj⟩ | ⟨hji, hj⟩
    · rw [hl] at hj
      cases hj
    · exact ⟨hji, hj, hheap b (h.held j b hj).2⟩
  refine ⟨hq, ?_, ?_, ?_⟩
  · intro j b hj
    obtain ⟨hji, hj, hb⟩ := hback j b hj
    obtain ⟨h1, h2⟩ := h.held j b hj
    have hba : b ≠ a := fun hba => hji (h.unique j i a (hba ▸ hj) hia)
    exact ⟨by rw [hb]; exact h1, by simp [h2, hba]⟩
  · intro j k b hj hk
    exact h.unique j k b (hback j b hj).2.1 (hback k b hk).2.1
  · intro j b us hj
    obtain ⟨hji, -, hb⟩ := hback j b (by rw [hj]; rfl)
    rw [Function.update_of_ne hji] at hj
    rw [hb]
    exact h.fresh j b us hj

/-- The first node of the queue moves to a worker. -/
theorem MemInv.take {a : Addr} (h : MemInv L p (a :: q)) {i : Thread n κ} (hq : QueueOk p' q)
    (hheap : p'.heap = p.heap) : MemInv (Function.update L i (.running a)) p' q := by
  have hsome : (p.heap a).isSome := h.queue.linked.isSome (by simp)
  have hnot : ∀ j, (L j).held ≠ some a := fun j hj => (h.held j a hj).2 (by simp)
  refine ⟨hq, ?_, ?_, ?_⟩
  · intro j b hj
    rw [hheap]
    rcases held_update hj with ⟨-, hj⟩ | ⟨-, hj⟩
    · cases hj
      exact ⟨hsome, h.queue.nodup.notMem⟩
    · obtain ⟨h1, h2⟩ := h.held j b hj
      exact ⟨h1, fun hb => h2 (by simp [hb])⟩
  · intro j k b hj hk
    exact unique_update h.unique rfl hnot hj hk
  · intro j b us hj
    rcases update_cases hj with ⟨-, hj⟩ | ⟨-, hj⟩
    · cases hj
    · rw [hheap]
      exact h.fresh j b us hj

end MemInv

/-! ## The tasks -/

/-- Worker `w` executes the task at `a`. -/
def Runs (L : Thread n κ → Loc τ) (w : Fin n) (a : Addr) : Prop := L (.worker w) = .running a

/-- The tasks that were dequeued and those in the queue are all tasks, in the order of submission; a
task that was dequeued is run by one worker or has been executed, not both, and once. -/
structure TaskInv (L : Thread n κ → Loc τ) (hist : History τ) (task : Addr → Option τ)
    (q : List Addr) : Prop where
  numbers : hist.dequeued ++ q.map hist.number = List.range hist.submitted.length
  queued : ∀ a ∈ q, task a = hist.submitted[hist.number a]?
  running : ∀ w a, Runs L w a → task a = hist.submitted[hist.number a]?
  taken : ∀ k, k ∈ hist.dequeued ↔
    k ∈ hist.executedNumbers ∨ ∃ w a, Runs L w a ∧ hist.number a = k
  once : ∀ v w a b, Runs L v a → Runs L w b → hist.number a = hist.number b → v = w
  notYet : ∀ w a, Runs L w a → hist.number a ∉ hist.executedNumbers
  nodup : hist.executedNumbers.Nodup
  tasks : ∀ e ∈ hist.executed, hist.submitted[e.1]? = some e.2

section TaskInv

variable {L L' : Thread n κ → Loc τ} {hist : History τ} {task task' : Addr → Option τ}
  {q : List Addr}

theorem TaskInv.lt (h : TaskInv L hist task q) {k : Nat}
    (hk : k ∈ hist.dequeued ∨ k ∈ q.map hist.number) : k < hist.submitted.length := by
  rw [← List.mem_range, ← h.numbers, List.mem_append]
  exact hk

theorem TaskInv.number_lt (h : TaskInv L hist task q) {w : Fin n} {a : Addr} (ha : Runs L w a) :
    hist.number a < hist.submitted.length :=
  h.lt (.inl ((h.taken _).mpr (.inr ⟨w, a, ha, rfl⟩)))

theorem TaskInv.executed_lt (h : TaskInv L hist task q) {e : Nat × τ} (he : e ∈ hist.executed) :
    e.1 < hist.submitted.length :=
  h.lt (.inl ((h.taken _).mpr (.inl (List.mem_map_of_mem he))))

/-- The tasks in the queue have not been dequeued. -/
theorem TaskInv.not_dequeued (h : TaskInv L hist task q) {a : Addr} (ha : a ∈ q) :
    hist.number a ∉ hist.dequeued := by
  have hnd : (hist.dequeued ++ q.map hist.number).Nodup := by
    rw [h.numbers]
    exact List.nodup_range
  exact fun hd => (List.nodup_append.mp hnd).2.2 _ hd _ (List.mem_map_of_mem ha) rfl

/-- A step that no task takes part in. -/
theorem TaskInv.same (h : TaskInv L hist task q) (hrun : ∀ w a, Runs L' w a ↔ Runs L w a)
    (htask : ∀ a, (a ∈ q ∨ ∃ w, Runs L w a) → task' a = task a) : TaskInv L' hist task' q where
  numbers := h.numbers
  queued a ha := (htask a (.inl ha)).trans (h.queued a ha)
  running w a ha := by
    have ha := (hrun w a).mp ha
    exact (htask a (.inr ⟨w, ha⟩)).trans (h.running w a ha)
  taken k := by simp only [h.taken, hrun]
  once v w a b ha hb := h.once v w a b ((hrun v a).mp ha) ((hrun w b).mp hb)
  notYet w a ha := h.notYet w a ((hrun w a).mp ha)
  nodup := h.nodup
  tasks := h.tasks

/-- A task is submitted. -/
theorem TaskInv.link (h : TaskInv L hist task q) {a : Addr} {t : τ}
    (hrun : ∀ w b, Runs L' w b ↔ Runs L w b) (haq : a ∉ q) (har : ∀ w, ¬ Runs L w a)
    (ha : task a = some t) (htask : ∀ b, task' b = task b) :
    TaskInv L' (hist.submit a t) task' (q ++ [a]) := by
  have hnum : ∀ b, b ≠ a → (hist.submit a t).number b = hist.number b := fun b hb =>
    hist.submit_number_of_ne a t hb
  have hget : ∀ k, k < hist.submitted.length →
      (hist.submit a t).submitted[k]? = hist.submitted[k]? := fun k hk => List.getElem?_append_left hk
  have hq : ∀ b ∈ q, b ≠ a := fun b hb hba => haq (hba ▸ hb)
  have hr : ∀ w b, Runs L' w b → Runs L w b ∧ b ≠ a := by
    intro w b hb
    have hb := (hrun w b).mp hb
    exact ⟨hb, fun hba => har w (hba ▸ hb)⟩
  refine ⟨?_, ?_, ?_, ?_, ?_, ?_, h.nodup, ?_⟩
  · have hmap : q.map (hist.submit a t).number = q.map hist.number :=
      List.map_congr_left fun b hb => hnum b (hq b hb)
    rw [List.map_append, hmap, ← List.append_assoc, History.submit_dequeued, h.numbers,
      List.map_singleton, History.submit_number_self, History.submit_submitted, List.length_append,
      List.length_singleton, List.range_succ]
  · intro b hb
    rw [htask]
    rcases List.mem_append.mp hb with hb | hb
    · rw [hnum b (hq b hb), hget _ (h.lt (.inr (List.mem_map_of_mem hb)))]
      exact h.queued b hb
    · obtain rfl := List.mem_singleton.mp hb
      rw [History.submit_number_self, History.submit_submitted, List.getElem?_concat_length]
      exact ha
  · intro w b hb
    obtain ⟨hb, hba⟩ := hr w b hb
    rw [htask, hnum b hba, hget _ (h.number_lt hb)]
    exact h.running w b hb
  · intro k
    refine (h.taken k).trans (or_congr_right ?_)
    constructor
    · rintro ⟨w, b, hb, hk⟩
      exact ⟨w, b, (hrun w b).mpr hb, by rw [hnum b fun hba => har w (hba ▸ hb)]; exact hk⟩
    · rintro ⟨w, b, hb, hk⟩
      obtain ⟨hb, hba⟩ := hr w b hb
      rw [hnum b hba] at hk
      exact ⟨w, b, hb, hk⟩
  · intro v w b c hb hc hbc
    obtain ⟨hb, hba⟩ := hr v b hb
    obtain ⟨hc, hca⟩ := hr w c hc
    rw [hnum b hba, hnum c hca] at hbc
    exact h.once v w b c hb hc hbc
  · intro w b hb
    obtain ⟨hb, hba⟩ := hr w b hb
    rw [hnum b hba]
    exact h.notYet w b hb
  · intro e he
    rw [hget _ (h.executed_lt he)]
    exact h.tasks e he

/-- Worker `w` takes the first task. -/
theorem TaskInv.take {a : Addr} (h : TaskInv L hist task (a :: q)) {w : Fin n}
    (hw : ∀ b, ¬ Runs L w b)
    (hrun : ∀ v b, Runs L' v b ↔ Runs L v b ∨ (v = w ∧ b = a)) (htask : ∀ b, task' b = task b) :
    TaskInv L' (hist.dequeue a) task' q := by
  have hnot := h.not_dequeued (a := a) (by simp)
  have hdistinct : ∀ v b, Runs L v b → hist.number b ≠ hist.number a := by
    intro v b hb hba
    exact hnot ((h.taken _).mpr (.inr ⟨v, b, hb, hba⟩))
  refine ⟨?_, ?_, ?_, ?_, ?_, ?_, h.nodup, h.tasks⟩
  · have hnum := h.numbers
    rw [List.map_cons, List.append_cons] at hnum
    exact hnum
  · intro b hb
    rw [htask]
    exact h.queued b (by simp [hb])
  · intro v b hb
    rw [htask]
    rcases (hrun v b).mp hb with hb | ⟨-, rfl⟩
    · exact h.running v b hb
    · exact h.queued b (by simp)
  · intro k
    show k ∈ hist.dequeued ++ [hist.number a] ↔ _
    rw [List.mem_append, List.mem_singleton, h.taken]
    constructor
    · rintro ((hk | ⟨v, b, hb, hk⟩) | rfl)
      · exact .inl hk
      · exact .inr ⟨v, b, (hrun v b).mpr (.inl hb), hk⟩
      · exact .inr ⟨w, a, (hrun w a).mpr (.inr ⟨rfl, rfl⟩), rfl⟩
    · rintro (hk | ⟨v, b, hb, hk⟩)
      · exact .inl (.inl hk)
      · rcases (hrun v b).mp hb with hb | ⟨-, rfl⟩
        · exact .inl (.inr ⟨v, b, hb, hk⟩)
        · exact .inr hk.symm
  · intro u v b c hb hc hbc
    rcases (hrun u b).mp hb with hb | ⟨rfl, rfl⟩ <;> rcases (hrun v c).mp hc with hc | ⟨rfl, rfl⟩
    · exact h.once u v b c hb hc hbc
    · exact absurd hbc (hdistinct u b hb)
    · exact absurd hbc.symm (hdistinct v c hc)
    · rfl
  · intro v b hb
    rcases (hrun v b).mp hb with hb | ⟨-, rfl⟩
    · exact h.notYet v b hb
    · exact fun hk => hnot ((h.taken _).mpr (.inl hk))

/-- Worker `w` executes its task. -/
theorem TaskInv.run (h : TaskInv L hist task q) {w : Fin n} {a : Addr} {t : τ} (hw : Runs L w a)
    (hrun : ∀ v b, Runs L' v b ↔ Runs L v b ∧ v ≠ w) (ha : task a = some t)
    (htask : ∀ b, (b ∈ q ∨ ∃ v, v ≠ w ∧ Runs L v b) → task' b = task b) :
    TaskInv L' (hist.execute a t) task' q := by
  have hdistinct : ∀ v b, Runs L v b → v ≠ w → hist.number b ≠ hist.number a := fun v b hb hv hba =>
    hv (h.once v w b a hb hw hba)
  refine ⟨h.numbers, ?_, ?_, ?_, ?_, ?_, ?_, ?_⟩
  · intro b hb
    rw [htask b (.inl hb)]
    exact h.queued b hb
  · intro v b hb
    obtain ⟨hb, hv⟩ := (hrun v b).mp hb
    rw [htask b (.inr ⟨v, hv, hb⟩)]
    exact h.running v b hb
  · intro k
    show k ∈ hist.dequeued ↔ _
    rw [History.execute_executedNumbers, List.mem_append, List.mem_singleton, h.taken]
    constructor
    · rintro (hk | ⟨v, b, hb, hk⟩)
      · exact .inl (.inl hk)
      · by_cases hv : v = w
        · subst hv
          have hba : b = a := by
            have := hb.symm.trans hw
            exact Loc.running.inj this
          subst hba
          exact .inl (.inr hk.symm)
        · exact .inr ⟨v, b, (hrun v b).mpr ⟨hb, hv⟩, hk⟩
    · rintro ((hk | rfl) | ⟨v, b, hb, hk⟩)
      · exact .inl hk
      · exact .inr ⟨w, a, hw, rfl⟩
      · exact .inr ⟨v, b, ((hrun v b).mp hb).1, hk⟩
  · intro u v b c hb hc hbc
    exact h.once u v b c ((hrun u b).mp hb).1 ((hrun v c).mp hc).1 hbc
  · intro v b hb
    obtain ⟨hb, hv⟩ := (hrun v b).mp hb
    rw [History.execute_executedNumbers, List.mem_append, List.mem_singleton, not_or]
    exact ⟨h.notYet v b hb, hdistinct v b hb hv⟩
  · rw [History.execute_executedNumbers, List.nodup_append]
    refine ⟨h.nodup, List.nodup_singleton _, ?_⟩
    rintro k hk m hm rfl
    exact h.notYet w a hw (List.mem_singleton.mp hm ▸ hk)
  · intro e he
    rcases List.mem_append.mp he with he | he
    · exact h.tasks e he
    · obtain rfl := List.mem_singleton.mp he
      exact (h.running w a hw).symm.trans ha

end TaskInv

end ThreadPool
