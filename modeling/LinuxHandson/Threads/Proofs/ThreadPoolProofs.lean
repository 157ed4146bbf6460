import LinuxHandson.Lib.Counting
import LinuxHandson.Threads.Proofs.TaskQueueProofs

/-!
# The thread pool

The queue is a linked list under its head, tail and count, and each task that was submitted is in
exactly one place: queued, run by one worker, or executed. After `pool_destroy` has joined all
workers, every task has been executed.
-/

namespace ThreadPool

open CLib Pthread

variable {n : Nat} {κ τ : Type}

/-! ## The whole invariant -/

/-- `worker` has executed a task and not counted it yet. -/
def Loc.isCounting : Loc τ → Bool
  | .counting => true
  | _ => false

/-- The number of workers that have executed a task and not counted it yet. -/
def numCounting (L : Thread n κ → Loc τ) : Nat :=
  (Finset.univ.filter fun w : Fin n => (L (.worker w)).isCounting).card

/-- After the shutdown nobody submits; a worker leaves its loop only then, and when the queue is
empty; the joins wait for all workers. -/
structure EndInv (L : Thread n κ → Loc τ) (s : Data n τ) (q : List Addr) : Prop where
  closed : s.pool.queue.shutdown = true → ∀ k, L (.submitter k) = .calling []
  left : ∀ w, L (.worker w) = .leaving ∨ L (.worker w) = .exited →
    s.pool.queue.shutdown = true ∧ q = []
  returned : ∀ w, s.returned w = true → L (.worker w) = .exited
  joined : ∀ k, L .destroyer = .join k → ∀ w : Fin n, w.val < k → s.returned w = true
  cleaned : ∀ t, L .destroyer = .cleanup t → t = none

/-- The invariant of the threads' places and the shared data. The nodes of the queue are at `q`. -/
structure Inv (L : Thread n κ → Loc τ) (s : Data n τ) (q : List Addr) : Prop where
  mem : MemInv L s.pool q
  task : TaskInv L s.history (fun a => (s.pool.heap a).map TaskT.task) q
  count : s.pool.tasksCompleted + numCounting L = s.history.executed.length
  ending : EndInv L s q

section Inv

variable {L : Thread n κ → Loc τ} {s : Data n τ} {q : List Addr}

/-- A node that is in the queue or run by a worker is allocated. -/
theorem Inv.isSome (h : Inv L s q) {a : Addr} (ha : a ∈ q ∨ ∃ w, Runs L w a) :
    (s.pool.heap a).isSome := by
  rcases ha with ha | ⟨w, hw⟩
  · exact h.mem.queue.linked.isSome ha
  · exact (h.mem.held (.worker w) a (by rw [show L (.worker w) = _ from hw]; rfl)).1

/-- When all workers have been joined, nothing is left in the queue. -/
theorem Inv.joined_nil (hn : 0 < n) (h : Inv L s q) {k : Nat} (hi : L .destroyer = .join k)
    (hk : n ≤ k) : q = [] := by
  have hret := h.ending.joined k hi ⟨0, hn⟩ (hn.trans_le hk)
  exact (h.ending.left _ (.inr (h.ending.returned _ hret))).2

variable [DecidableEq κ]

theorem runs_update {v w : Fin n} {l' : Loc τ} {a : Addr} :
    Runs (Function.update L (.worker v) l') w a ↔
      (w = v ∧ l' = .running a) ∨ (w ≠ v ∧ Runs L w a) := by
  by_cases hw : w = v
  · subst hw
    simp [Runs]
  · have hne : (Thread.worker w : Thread n κ) ≠ .worker v := fun h => hw (Thread.worker.inj h)
    simp [Runs, hne, hw]

/-- A worker that neither takes nor executes a task. -/
theorem runs_update_idle {v : Fin n} {l' : Loc τ} (hl : ∀ a, l' ≠ .running a)
    (hv : ∀ a, ¬ Runs L v a) (w : Fin n) (a : Addr) :
    Runs (Function.update L (.worker v) l') w a ↔ Runs L w a := by
  rw [runs_update]
  constructor
  · rintro (⟨-, h⟩ | ⟨-, h⟩)
    · exact absurd h (hl a)
    · exact h
  · intro h
    refine .inr ⟨?_, h⟩
    rintro rfl
    exact hv a h

theorem runs_update_other {i : Thread n κ} (hi : ∀ w, i ≠ .worker w) {l' : Loc τ} (w : Fin n)
    (a : Addr) : Runs (Function.update L i l') w a ↔ Runs L w a := by
  rw [Runs, Function.update_of_ne (hi w).symm, Runs]

theorem numCounting_worker (v : Fin n) (l' : Loc τ) :
    numCounting (Function.update L (.worker v) l') + (if (L (.worker v)).isCounting then 1 else 0) =
      numCounting L + if l'.isCounting then 1 else 0 := by
  have hcomp : (fun w => Function.update L (.worker v) l' (.worker w)) =
      Function.update (fun w => L (.worker w)) v l' := by
    funext w
    by_cases hw : w = v
    · subst hw
      simp
    · have hne : (Thread.worker w : Thread n κ) ≠ .worker v := fun h => hw (Thread.worker.inj h)
      simp [hne, hw]
  have h := card_filter_update (fun w => L (.worker w)) (fun l => l.isCounting = true) v l'
  rw [← hcomp] at h
  exact h

theorem numCounting_other {i : Thread n κ} (hi : ∀ w, i ≠ .worker w) (l' : Loc τ) :
    numCounting (Function.update L i l') = numCounting L := by
  unfold numCounting
  congr 1
  refine Finset.filter_congr ?_
  intro w _
  rw [Function.update_of_ne (hi w).symm]

/-- A step of a thread that submits: there has been no shutdown yet. -/
theorem EndInv.submit (h : EndInv L s q) {k : κ} {l' : Loc τ} {s' : Data n τ} {q' : List Addr}
    (hk : L (.submitter k) ≠ .calling [])
    (hs : s'.pool.queue.shutdown = s.pool.queue.shutdown) (hr : s'.returned = s.returned) :
    EndInv (Function.update L (.submitter k) l') s' q' := by
  have hno : s.pool.queue.shutdown ≠ true := fun hs => hk (h.closed hs k)
  refine ⟨?_, ?_, ?_, ?_, ?_⟩
  · intro hs'
    exact absurd (hs ▸ hs') hno
  · intro w hw
    rw [Function.update_of_ne (by simp)] at hw
    exact absurd (h.left w hw).1 hno
  · intro w hw
    rw [Function.update_of_ne (by simp)]
    exact h.returned w (hr ▸ hw)
  · intro j hj w hw
    rw [Function.update_of_ne (by simp)] at hj
    rw [hr]
    exact h.joined j hj w hw
  · intro t ht
    rw [Function.update_of_ne (by simp)] at ht
    exact h.cleaned t ht

/-- A step of a worker that has not returned. -/
theorem EndInv.work (h : EndInv L s q) {v : Fin n} {l' : Loc τ} {s' : Data n τ} {q' : List Addr}
    (hv : L (.worker v) ≠ .exited) (hs : s'.pool.queue.shutdown = s.pool.queue.shutdown)
    (hr : ∀ w, w ≠ v → s'.returned w = s.returned w)
    (hrv : s'.returned v = true → s.returned v = true ∨ l' = .exited)
    (hq : q = [] → q' = [])
    (hl : l' = .leaving ∨ l' = .exited → s.pool.queue.shutdown = true ∧ q' = []) :
    EndInv (Function.update L (.worker v) l') s' q' := by
  have hne : ∀ {w : Fin n}, w ≠ v → (Thread.worker w : Thread n κ) ≠ .worker v := fun hw h =>
    hw (Thread.worker.inj h)
  refine ⟨?_, ?_, ?_, ?_, ?_⟩
  · intro hs' k
    rw [Function.update_of_ne (by simp)]
    exact h.closed (hs ▸ hs') k
  · intro w hw
    rw [hs]
    by_cases hwv : w = v
    · subst hwv
      rw [Function.update_self] at hw
      exact hl hw
    · rw [Function.update_of_ne (hne hwv)] at hw
      obtain ⟨h1, h2⟩ := h.left w hw
      exact ⟨h1, hq h2⟩
  · intro w hw
    by_cases hwv : w = v
    · subst hwv
      rw [Function.update_self]
      rcases hrv hw with hw | hw
      · exact absurd (h.returned w hw) hv
      · exact hw
    · rw [Function.update_of_ne (hne hwv)]
      exact h.returned w (hr w hwv ▸ hw)
  · intro j hj w hw
    rw [Function.update_of_ne (by simp)] at hj
    have hret := h.joined j hj w hw
    rw [hr w fun hwv => hv (hwv ▸ h.returned w hret)]
    exact hret
  · intro t ht
    rw [Function.update_of_ne (by simp)] at ht
    exact h.cleaned t ht

/-- A step of `pool_destroy`. -/
theorem EndInv.destroy (h : EndInv L s q) {l' : Loc τ} {s' : Data n τ}
    (hclosed : s'.pool.queue.shutdown = true → ∀ k, L (.submitter k) = .calling [])
    (hs : s.pool.queue.shutdown = true → s'.pool.queue.shutdown = true)
    (hr : s'.returned = s.returned)
    (hjoin : ∀ k, l' = .join k → ∀ w : Fin n, w.val < k → s.returned w = true)
    (hclean : ∀ t, l' = .cleanup t → t = none) :
    EndInv (Function.update L .destroyer l') s' q := by
  refine ⟨?_, ?_, ?_, ?_, ?_⟩
  · intro hs' k
    rw [Function.update_of_ne (by simp)]
    exact hclosed hs' k
  · intro w hw
    rw [Function.update_of_ne (by simp)] at hw
    obtain ⟨h1, h2⟩ := h.left w hw
    exact ⟨hs h1, h2⟩
  · intro w hw
    rw [Function.update_of_ne (by simp)]
    exact h.returned w (hr ▸ hw)
  · intro k hk w hw
    rw [Function.update_self] at hk
    rw [hr]
    exact hjoin k hk w hw
  · intro t ht
    rw [Function.update_self] at ht
    exact hclean t ht

theorem Inv.new (h : Inv L s q) {k : κ} {a : Addr} {t : τ} {ts : List τ} {p : Pool τ}
    (hi : L (.submitter k) = .calling (t :: ts)) (hnew : s.pool.newTask a t = some p) :
    Inv (Function.update L (.submitter k) (.linking a ts)) { s with pool := p } q := by
  obtain ⟨hfree, hp⟩ := newTask_ok hnew
  refine ⟨h.mem.new hnew, h.task.same (runs_update_other (by simp)) ?_, ?_,
    h.ending.submit (by rw [hi]; simp) (by rw [hp]) rfl⟩
  · intro b hb
    have hba : b ≠ a := by
      rintro rfl
      have hsome := h.isSome hb
      rw [hfree] at hsome
      cases hsome
    simp [hp, hba]
  · rw [numCounting_other (by simp), hp]
    exact h.count

theorem Inv.link (h : Inv L s q) {k : κ} {a : Addr} {ts : List τ} {node : TaskT τ} {p : Pool τ}
    (hi : L (.submitter k) = .linking a ts) (hnode : s.pool.heap a = some node)
    (hen : s.pool.enqueue a = some p) :
    Inv (Function.update L (.submitter k) (.calling ts))
      { s with pool := p, history := s.history.submit a node.task } (q ++ [a]) := by
  obtain ⟨t, ht⟩ := h.mem.fresh _ a ts hi
  have hheld : (L (.submitter k)).held = some a := by rw [hi]; rfl
  have haq := (h.mem.held _ a hheld).2
  obtain ⟨hq, hsame, hheap⟩ := enqueue_ok h.mem.queue haq ht hen
  refine ⟨h.mem.link hi rfl hq hheap, ?_, ?_, h.ending.submit (by rw [hi]; simp) hsame.shutdown rfl⟩
  · refine h.task.link (runs_update_other (by simp)) haq ?_ (by simp [hnode]) hsame.task
    intro w hw
    have := h.mem.unique (.worker w) (.submitter k) a (by rw [show L (.worker w) = _ from hw]; rfl)
      hheld
    cases this
  · rw [numCounting_other (by simp)]
    show p.tasksCompleted + _ = _
    rw [hsame.completed]
    exact h.count

theorem Inv.take (h : Inv L s q) {w : Fin n} {a : Addr} {p : Pool τ} (hi : L (.worker w) = .top)
    (hh : s.pool.queue.head = some a) (hd : s.pool.dequeue a = some p) :
    ∃ r, Inv (Function.update L (.worker w) (.running a))
      { s with pool := p, history := s.history.dequeue a } r := by
  obtain ⟨r, rfl, hq, hsame, hheap⟩ := dequeue_ok h.mem.queue hh hd
  have hidle : ∀ b, ¬ Runs L w b := by
    intro b hb
    rw [Runs, hi] at hb
    cases hb
  refine ⟨r, h.mem.take hq hheap, ?_, ?_, ?_⟩
  · refine h.task.take hidle ?_ hsame.task
    intro v b
    rw [runs_update]
    constructor
    · rintro (⟨rfl, hb⟩ | ⟨-, hb⟩)
      · exact .inr ⟨rfl, (Loc.running.inj hb).symm⟩
      · exact .inl hb
    · rintro (hb | ⟨rfl, rfl⟩)
      · refine .inr ⟨?_, hb⟩
        rintro rfl
        exact hidle b hb
      · exact .inl ⟨rfl, rfl⟩
  · have hnum := numCounting_worker (L := L) w (.running a)
    rw [hi] at hnum
    show p.tasksCompleted + _ = _
    rw [hsame.completed, Nat.add_right_cancel hnum]
    exact h.count
  · refine h.ending.work (by rw [hi]; simp) hsame.shutdown (fun _ _ => rfl) .inl ?_ ?_
    · rintro ⟨⟩
    · rintro (hl | hl) <;> cases hl

theorem Inv.run (h : Inv L s q) {w : Fin n} {a : Addr} {node : TaskT τ}
    (hi : L (.worker w) = .running a) (hnode : s.pool.heap a = some node) :
    Inv (Function.update L (.worker w) .counting)
      { s with pool := s.pool.free a, history := s.history.execute a node.task } q := by
  have hheld : (L (.worker w)).held = some a := by rw [hi]; rfl
  have haq := (h.mem.held _ a hheld).2
  have hother : ∀ b, b ≠ a → (s.pool.free a).heap b = s.pool.heap b := fun b hb =>
    Function.update_of_ne hb _ _
  have hq : QueueOk (s.pool.free a) q :=
    h.mem.queue.same (fun b hb => hother b fun hba => haq (hba ▸ hb)) rfl rfl rfl
  refine ⟨h.mem.drop rfl hq ?_, ?_, ?_, ?_⟩
  · intro b hb
    refine hother b ?_
    rintro rfl
    exact hb hheld
  · refine h.task.run hi ?_ (by simp [hnode]) ?_
    · intro v b
      rw [runs_update]
      constructor
      · rintro (⟨-, hb⟩ | ⟨hv, hb⟩)
        · cases hb
        · exact ⟨hb, hv⟩
      · rintro ⟨hb, hv⟩
        exact .inr ⟨hv, hb⟩
    · intro b hb
      have hba : b ≠ a := by
        rintro rfl
        rcases hb with hb | ⟨v, hv, hb⟩
        · exact haq hb
        · have := h.mem.unique (.worker v) (.worker w) b
            (by rw [show L (.worker v) = _ from hb]; rfl) hheld
          exact hv (Thread.worker.inj this)
      exact congrArg (Option.map TaskT.task) (hother b hba)
  · have hnum := numCounting_worker (L := L) w .counting
    rw [hi] at hnum
    have hcount := h.count
    show s.pool.tasksCompleted + _ = ((s.history.executed ++ [_]).length : Int)
    rw [List.length_append, List.length_singleton]
    simp only [Loc.isCounting, Bool.false_eq_true, if_false, if_true] at hnum
    omega
  · refine h.ending.work (by rw [hi]; simp) rfl (fun _ _ => rfl) .inl id ?_
    rintro (hl | hl) <;> cases hl

theorem Inv.idle (h : Inv L s q) {w : Fin n} {l' : Loc τ} {s' : Data n τ}
    (hi : (L (.worker w)).held = none) (hl : l'.held = none) (hq : QueueOk s'.pool q)
    (hheap : s'.pool.heap = s.pool.heap) (hhist : s'.history = s.history)
    (hcount : s'.pool.tasksCompleted + (if l'.isCounting then 1 else 0 : Nat) =
      s.pool.tasksCompleted + (if (L (.worker w)).isCounting then 1 else 0 : Nat))
    (hend : EndInv (Function.update L (.worker w) l') s' q) :
    Inv (Function.update L (.worker w) l') s' q := by
  refine ⟨h.mem.drop hl hq fun b _ => by rw [hheap], ?_, ?_, hend⟩
  · rw [hhist, hheap]
    refine h.task.same (runs_update_idle ?_ ?_) fun _ _ => rfl
    · rintro a rfl
      cases hl
    · intro a ha
      rw [Runs] at ha
      rw [ha] at hi
      cases hi
  · have hnum := numCounting_worker (L := L) w l'
    have hold := h.count
    rw [hhist]
    omega

/-- A step of `pool_destroy` that frees no node. -/
theorem Inv.destroy (h : Inv L s q) {l' : Loc τ} {s' : Data n τ} (hl : l'.held = none)
    (hq : QueueOk s'.pool q) (hheap : s'.pool.heap = s.pool.heap) (hhist : s'.history = s.history)
    (hcount : s'.pool.tasksCompleted = s.pool.tasksCompleted)
    (hend : EndInv (Function.update L .destroyer l') s' q) :
    Inv (Function.update L .destroyer l') s' q := by
  refine ⟨h.mem.drop hl hq fun b _ => by rw [hheap], ?_, ?_, hend⟩
  · rw [hhist, hheap]
    exact h.task.same (runs_update_other (by simp)) fun _ _ => rfl
  · rw [numCounting_other (by simp), hhist, hcount]
    exact h.count

/-- What a step of the code keeps. -/
theorem Inv.change (hn : 0 < n) (h : Inv L s q) {i : Thread n κ} {l' : Loc τ} {s' : Data n τ}
    {N : Notify Cond} (hc : Change s i (L i) l' s' N)
    (hg : i = .destroyer → L i = .destroy → ∀ k, L (.submitter k) = .calling []) :
    ∃ q', Inv (Function.update L i l') s' q' := by
  generalize hi : L i = l at hc
  cases hc with
  | new hnew => exact ⟨q, h.new hi hnew⟩
  | link hnode hen => exact ⟨_, h.link hi hnode hen⟩
  | take hh hd => exact h.take hi hh hd
  | quit hh hs =>
    refine ⟨q, h.idle (by rw [hi]; rfl) rfl h.mem.queue rfl rfl (by rw [hi]; rfl) ?_⟩
    refine h.ending.work (by rw [hi]; simp) rfl (fun _ _ => rfl) .inl id ?_
    exact fun _ => ⟨hs, h.mem.queue.head_eq_none.mp hh⟩
  | run hnode => exact ⟨q, h.run hi hnode⟩
  | count =>
    refine ⟨q, h.idle (by rw [hi]; rfl) rfl ?_ rfl rfl (by rw [hi]; simp [Loc.isCounting]) ?_⟩
    · exact h.mem.queue.same (fun _ _ => rfl) rfl rfl rfl
    · refine h.ending.work (by rw [hi]; simp) rfl (fun _ _ => rfl) .inl id ?_
      rintro (hl | hl) <;> cases hl
  | ret =>
    refine ⟨q, h.idle (by rw [hi]; rfl) rfl h.mem.queue rfl rfl (by rw [hi]; rfl) ?_⟩
    refine h.ending.work (by rw [hi]; simp) rfl ?_ (fun _ => .inr rfl) id ?_
    · intro v hv
      exact Function.update_of_ne hv _ _
    · exact fun _ => h.ending.left _ (.inl hi)
  | shut =>
    refine ⟨q, h.destroy rfl ?_ rfl rfl rfl ?_⟩
    · exact h.mem.queue.same (fun _ _ => rfl) rfl rfl rfl
    · refine h.ending.destroy (fun _ => hg rfl hi) (fun _ => rfl) rfl ?_ ?_
      · rintro k hk w hw
        cases hk
        exact absurd hw (Nat.not_lt_zero _)
      · rintro t ht
        cases ht
  | @join k hk hr =>
    refine ⟨q, h.destroy rfl h.mem.queue rfl rfl rfl ?_⟩
    refine h.ending.destroy h.ending.closed id rfl ?_ ?_
    · intro j hj w hw
      cases hj
      rcases Nat.lt_succ_iff_lt_or_eq.mp hw with hw | hw
      · exact h.ending.joined k hi w hw
      · have hwk : w = ⟨k, hk⟩ := Fin.ext hw
        rw [hwk]
        exact hr
    · rintro t ht
      cases ht
  | joined hk =>
    refine ⟨q, h.destroy rfl h.mem.queue rfl rfl rfl ?_⟩
    refine h.ending.destroy h.ending.closed id rfl ?_ ?_
    · intro j hj
      cases hj
    · intro t ht
      rw [← Loc.cleanup.inj ht]
      exact h.mem.queue.head_eq_none.mpr (h.joined_nil hn hi hk)
  | clean hnode => cases h.ending.cleaned _ hi
  | freed =>
    refine ⟨q, h.destroy rfl ?_ rfl rfl rfl ?_⟩
    · exact h.mem.queue.same (fun _ _ => rfl) rfl rfl rfl
    · refine h.ending.destroy h.ending.closed id rfl ?_ ?_
      · intro j hj
        cases hj
      · rintro t ht
        cases ht

end Inv

/-! ## All runs -/

theorem held_firstLoc (todo : κ → List τ) (i : Thread n κ) : (firstLoc todo i).held = none := by
  cases i <;> rfl

theorem inv_start (todo : κ → List τ) :
    Inv (firstLoc todo : Thread n κ → Loc τ) ⟨.create, fun _ => false, .none⟩ [] where
  mem := by
    refine ⟨⟨rfl, List.nodup_nil, rfl, rfl⟩, ?_, ?_, ?_⟩
    · intro i a hi
      rw [held_firstLoc] at hi
      cases hi
    · intro i j a hi
      rw [held_firstLoc] at hi
      cases hi
    · intro i a ts hi
      have := held_firstLoc todo i
      rw [hi] at this
      cases this
  task := by
    have hrun : ∀ w a, ¬ Runs (firstLoc todo : Thread n κ → Loc τ) w a := by
      rintro w a ⟨⟩
    refine ⟨rfl, ?_, ?_, ?_, ?_, ?_, List.nodup_nil, ?_⟩
    · intro a ha
      cases ha
    · intro w a ha
      exact absurd ha (hrun w a)
    · intro k
      refine ⟨fun hk => absurd hk List.not_mem_nil, ?_⟩
      rintro (hk | ⟨w, a, ha, -⟩)
      · exact absurd hk List.not_mem_nil
      · exact absurd ha (hrun w a)
    · intro v w a b ha
      exact absurd ha (hrun v a)
    · intro w a ha
      exact absurd ha (hrun w a)
    · intro e he
      cases he
  count := by
    simp [Pool.create, numCounting, firstLoc, Loc.isCounting, History.none]
  ending := by
    refine ⟨?_, ?_, ?_, ?_, ?_⟩
    · rintro ⟨⟩
    · rintro w (hw | hw) <;> cases hw
    · rintro w ⟨⟩
    · rintro k ⟨⟩
    · rintro t ⟨⟩

/-- The invariant, wherever the nodes of the queue are. -/
def PoolInv (L : Thread n κ → Loc τ) (s : Data n τ) : Prop := ∃ q, Inv L s q

theorem poolInv_reach [DecidableEq κ] [Fintype κ] (hn : 0 < n) {todo : κ → List τ} {S : PoolState n κ τ}
    (h : Machine.Reach (step code) SubmitsBeforeDestroy (start todo) S) :
    PoolInv S.loc S.data := by
  have h0 : PoolInv (start (n := n) todo).loc (start todo).data := ⟨[], inv_start todo⟩
  refine Reach.loc_data h0 ?_ ?_ h
  · rintro S i x woken f l' s' ⟨q, hq⟩ hg hc hf
    refine hq.change hn (plain_change hc hf) ?_
    rintro rfl
    exact hg
  · rintro S i x woken m body l' s' N ⟨q, hq⟩ hg hc hb
    refine hq.change hn (unlock_change hc hb) ?_
    rintro rfl
    exact hg

open Classical in
/-- The workers that run task `k`. -/
noncomputable def runners (L : Thread n κ → Loc τ) (hist : History τ) (k : Nat) : Finset (Fin n) :=
  Finset.univ.filter fun w => ∃ a, Runs L w a ∧ hist.number a = k

theorem mem_runners {L : Thread n κ → Loc τ} {hist : History τ} {k : Nat} {w : Fin n} :
    w ∈ runners L hist k ↔ ∃ a, Runs L w a ∧ hist.number a = k := by
  simp [runners]

/-- A task is in one place: queued once, or run by one worker, or executed once. -/
theorem TaskInv.one_place {L : Thread n κ → Loc τ} {hist : History τ} {task : Addr → Option τ}
    {q : List Addr} (h : TaskInv L hist task q) {k : Nat} (hk : k < hist.submitted.length) :
    (q.map hist.number).count k + (runners L hist k).card + hist.executedNumbers.count k = 1 := by
  have hnd : (hist.dequeued ++ q.map hist.number).Nodup := by
    rw [h.numbers]
    exact List.nodup_range
  have hmem : k ∈ hist.dequeued ++ q.map hist.number := by
    rw [h.numbers]
    exact List.mem_range.mpr hk
  obtain ⟨-, hndq, hdisj⟩ := List.nodup_append.mp hnd
  by_cases hd : k ∈ hist.dequeued
  · have hq : k ∉ q.map hist.number := fun hq => hdisj k hd k hq rfl
    rw [List.count_eq_zero_of_not_mem hq]
    by_cases he : k ∈ hist.executedNumbers
    · have hr : runners L hist k = ∅ := by
        refine Finset.eq_empty_of_forall_notMem ?_
        intro w hw
        obtain ⟨a, ha, hak⟩ := mem_runners.mp hw
        exact h.notYet w a ha (hak ▸ he)
      rw [hr, List.count_eq_one_of_mem h.nodup he, Finset.card_empty]
    · obtain ⟨w, a, ha, hak⟩ := ((h.taken k).mp hd).resolve_left he
      have hr : runners L hist k = {w} := by
        refine Finset.eq_singleton_iff_unique_mem.mpr ⟨mem_runners.mpr ⟨a, ha, hak⟩, ?_⟩
        intro v hv
        obtain ⟨b, hb, hbk⟩ := mem_runners.mp hv
        exact h.once v w b a hb ha (hbk.trans hak.symm)
      rw [hr, List.count_eq_zero_of_not_mem he, Finset.card_singleton]
  · have hq := (List.mem_append.mp hmem).resolve_left hd
    have he : k ∉ hist.executedNumbers := fun he => hd ((h.taken k).mpr (.inl he))
    have hr : runners L hist k = ∅ := by
      refine Finset.eq_empty_of_forall_notMem ?_
      intro w hw
      exact hd ((h.taken k).mpr (.inr ⟨w, mem_runners.mp hw⟩))
    rw [hr, List.count_eq_one_of_mem hndq hq, List.count_eq_zero_of_not_mem he, Finset.card_empty]

/-- Tasks are dequeued in the order of submission. -/
theorem TaskInv.dequeued_eq {L : Thread n κ → Loc τ} {hist : History τ} {task : Addr → Option τ}
    {q : List Addr} (h : TaskInv L hist task q) :
    hist.dequeued = List.range hist.dequeued.length := by
  have hlen := congrArg List.length h.numbers
  rw [List.length_append, List.length_range] at hlen
  have htake := congrArg (List.take hist.dequeued.length) h.numbers
  rw [List.take_left, List.take_range, Nat.min_eq_left (by omega)] at htake
  exact htake

/-- When the queue is empty and no worker runs a task, every task has been executed. -/
theorem Inv.all_executed {L : Thread n κ → Loc τ} {s : Data n τ} {q : List Addr} (h : Inv L s q)
    (hq : q = []) (hexit : ∀ w, L (.worker w) = .exited) :
    s.history.executedNumbers.Perm (List.range s.history.submitted.length) := by
  have hrun : ∀ w a, ¬ Runs L w a := by
    intro w a ha
    rw [Runs, hexit] at ha
    cases ha
  have hmem : ∀ k, k ∈ s.history.executedNumbers ↔ k ∈ List.range s.history.submitted.length := by
    intro k
    have hnum := h.task.numbers
    rw [hq, List.map_nil, List.append_nil] at hnum
    rw [← hnum, h.task.taken]
    exact ⟨.inl, fun hk => hk.resolve_right fun ⟨w, a, ha, _⟩ => hrun w a ha⟩
  exact (List.perm_ext_iff_of_nodup h.task.nodup List.nodup_range).mpr hmem

/-- After the last join every task has been executed, and counted. -/
theorem Inv.finished (hn : 0 < n) {L : Thread n κ → Loc τ} {s : Data n τ} {q : List Addr}
    (h : Inv L s q) (hi : L .destroyer = .join n) :
    s.history.executedNumbers.Perm (List.range s.history.submitted.length) ∧
      s.pool.tasksCompleted = s.history.submitted.length := by
  have hexit : ∀ w, L (.worker w) = .exited := fun w =>
    h.ending.returned w (h.ending.joined n hi w w.isLt)
  have hperm := h.all_executed (h.joined_nil hn hi le_rfl) hexit
  have hcount : numCounting L = 0 := by
    refine Finset.card_eq_zero.mpr (Finset.eq_empty_of_forall_notMem ?_)
    intro w hw
    have hw := (Finset.mem_filter.mp hw).2
    rw [hexit] at hw
    cases hw
  refine ⟨hperm, ?_⟩
  have hlen := hperm.length_eq
  rw [List.length_range, History.executedNumbers, List.length_map] at hlen
  have hc := h.count
  rw [hcount] at hc
  omega

end ThreadPool
