import LinuxHandson.Threads.Proofs.ThreadPoolProofs
import LinuxHandson.Threads.Proofs.WakeupProofs
import Mathlib.Algebra.BigOperators.Ring.Finset
import Mathlib.Algebra.Order.BigOperators.Group.Multiset
import Mathlib.Data.Fintype.BigOperators

/-!
# How the thread pool comes to an end

The threads make a bounded number of steps and never all wait for each other. When all have ended, each
task has been executed once, every node and the pool have been freed.
-/

namespace ThreadPool

open CLib Pthread

variable {n : Nat} {κ τ : Type}

/-! ## What the places say -/

/-- The places of each kind of thread. -/
def OfKind : Thread n κ → Loc τ → Prop
  | .worker _, .top => True
  | .worker _, .running _ => True
  | .worker _, .counting => True
  | .worker _, .leaving => True
  | .worker _, .exited => True
  | .submitter _, .calling _ => True
  | .submitter _, .linking _ _ => True
  | .destroyer, .destroy => True
  | .destroyer, .join k => k ≤ n
  | .destroyer, .cleanup _ => True
  | .destroyer, .destroyed => True
  | _, _ => False

/-- The thread has ended. -/
def Loc.ended : Loc τ → Bool
  | .exited => true
  | .calling [] => true
  | .destroyed => true
  | _ => false

/-- The tasks that a submitter at this place has still to put into the queue. -/
def Loc.rest (heap : Addr → Option (TaskT τ)) : Loc τ → List τ
  | .calling ts => ts
  | .linking a ts => ((heap a).map TaskT.task).toList ++ ts
  | _ => []

/-- The steps, without locks and waits, that a thread at this place has before it; those of a task in
the queue are not counted here. -/
def Loc.todo (n : Nat) : Loc τ → Nat
  | .top => 2
  | .running _ => 4
  | .counting => 3
  | .leaving => 1
  | .calling ts => 5 * ts.length
  | .linking _ ts => 5 * ts.length + 4
  | .destroy => n + 3
  | .join k => n - k + 2
  | .cleanup _ => 1
  | _ => 0

/-- The steps that all threads have before them. -/
def stepsLeft [Fintype κ] (L : Thread n κ → Loc τ) (s : Data n τ) : Nat :=
  ∑ i, (L i).todo n + 3 * (s.history.submitted.length - s.history.dequeued.length)

/-- Nothing is lost: each node is in the queue or some thread has it to itself, and each task has been
submitted or is still to be. `pool_destroy` goes on after the shutdown only, and to its end when the
workers have returned. -/
structure DrainInv [Fintype κ] (todo : κ → List τ) (L : Thread n κ → Loc τ) (s : Data n τ)
    (q : List Addr) : Prop where
  kind : ∀ i, OfKind i (L i)
  owned : ∀ a, (s.pool.heap a).isSome → a ∈ q ∨ ∃ i, (L i).held = some a
  tasks : (s.history.submitted : Multiset τ) +
    ∑ k, ((L (.submitter k)).rest s.pool.heap : Multiset τ) = ∑ k, (todo k : Multiset τ)
  shut : L .destroyer ≠ .destroy → s.pool.queue.shutdown = true
  joined : (∃ t, L .destroyer = .cleanup t) ∨ L .destroyer = .destroyed →
    ∀ w, L (.worker w) = .exited
  freed : s.pool.freed = true ↔ L .destroyer = .destroyed
  exited : ∀ w, L (.worker w) = .exited → s.returned w = true
  counted : 0 ≤ s.pool.tasksCompleted ∧ s.pool.tasksCompleted < 2 ^ 31

section Change

variable {L : Thread n κ → Loc τ} {s s' : Data n τ} {q q' : List Addr} {i : Thread n κ} {l l' : Loc τ}
  {N : Notify Cond}

theorem change_kind (h : Change s i l l' s' N) (hl : OfKind i l) : OfKind i l' := by
  cases h with
  | join hk hr => exact hk
  | shut => exact Nat.zero_le n
  | _ => trivial

theorem change_shutdown (h : Change s i l l' s' N) (hs : s.pool.queue.shutdown = true) :
    s'.pool.queue.shutdown = true := by
  cases h with
  | new h =>
    obtain ⟨-, rfl⟩ := newTask_ok h
    exact hs
  | link hn h => exact (enqueue_shutdown h).trans hs
  | take hh h => exact (dequeue_shutdown h).trans hs
  | shut => rfl
  | _ => exact hs

theorem change_counted (h : Inv L s q)
    (hcounted : 0 ≤ s.pool.tasksCompleted ∧ s.pool.tasksCompleted < 2 ^ 31)
    (hc : Change s i (L i) l' s' N) : 0 ≤ s'.pool.tasksCompleted ∧ s'.pool.tasksCompleted < 2 ^ 31 := by
  have hsame : s'.pool.tasksCompleted = s.pool.tasksCompleted →
      0 ≤ s'.pool.tasksCompleted ∧ s'.pool.tasksCompleted < 2 ^ 31 := fun heq => heq ▸ hcounted
  generalize hi : L i = l at hc
  cases hc with
  | new hnew =>
    obtain ⟨-, rfl⟩ := newTask_ok hnew
    exact hsame rfl
  | @link k a ts node p hnode hen =>
    obtain ⟨t, ht⟩ := h.mem.fresh _ a ts hi
    have ha := (h.mem.held _ a (by rw [hi]; rfl)).2
    obtain ⟨-, hp, -⟩ := enqueue_ok h.mem.queue ha ht hen
    exact hsame hp.completed
  | take hh hd =>
    obtain ⟨r, -, -, hp, -⟩ := dequeue_ok h.mem.queue hh hd
    exact hsame hp.completed
  | count hlt => exact ⟨Int.add_nonneg hcounted.1 (by decide), hlt⟩
  | _ => exact hsame rfl

theorem enqueue_freed {p p' : Pool τ} {a : Addr} (h : p.enqueue a = some p') : p'.freed = p.freed := by
  obtain ⟨p1, h1, h⟩ := Option.bind_eq_some_iff.mp h
  obtain ⟨c, -, h⟩ := Option.bind_eq_some_iff.mp h
  cases h
  show p1.freed = _
  unfold Pool.linkTask at h1
  split at h1
  · obtain ⟨node, -, rfl⟩ := Option.map_eq_some_iff.mp h1
    rfl
  · cases h1
    rfl

theorem dequeue_freed {p p' : Pool τ} {a : Addr} (h : p.dequeue a = some p') : p'.freed = p.freed := by
  obtain ⟨node, -, h⟩ := Option.bind_eq_some_iff.mp h
  obtain ⟨c, -, h⟩ := Option.bind_eq_some_iff.mp h
  cases h
  rfl

/-- A step of a worker or of a submitter does not free the pool. -/
theorem change_freed (h : Change s i l l' s' N) (hi : i ≠ .destroyer) :
    s'.pool.freed = s.pool.freed := by
  cases h with
  | new h =>
    obtain ⟨-, rfl⟩ := newTask_ok h
    rfl
  | link hn h => exact enqueue_freed h
  | take hh h => exact dequeue_freed h
  | quit => rfl
  | run => rfl
  | count => rfl
  | ret => rfl
  | _ => exact absurd rfl hi

variable [DecidableEq κ]

/-- Who has the nodes after a step that takes none from another thread. -/
theorem held_other {a : Addr} {j : Thread n κ} (hj : (L j).held = some a)
    (hi : (L i).held ≠ some a) : ∃ k, (Function.update L i l' k).held = some a := by
  have hji : j ≠ i := by
    rintro rfl
    exact hi hj
  exact ⟨j, by rw [Function.update_of_ne hji]; exact hj⟩

/-- After a step each node is in the queue or some thread has it to itself. -/
theorem change_owned (h : Inv L s q) (howned : ∀ a, (s.pool.heap a).isSome → a ∈ q ∨
      ∃ i, (L i).held = some a) (hc : Change s i (L i) l' s' N)
    (h' : Inv (Function.update L i l') s' q') {a : Addr} (ha : (s'.pool.heap a).isSome) :
    a ∈ q' ∨ ∃ j, (Function.update L i l' j).held = some a := by
  have hq' := h'.mem.queue.linked
  generalize hi : L i = l at hc
  -- a step that leaves the nodes and the queue alone
  have hsame : l.held = none → s'.pool.heap = s.pool.heap → s'.pool.queue.head = s.pool.queue.head →
      a ∈ q' ∨ ∃ j, (Function.update L i l' j).held = some a := by
    intro hl hheap hhead
    rw [hheap, hhead] at hq'
    rw [hheap] at ha
    rcases howned a ha with hmem | ⟨j, hj⟩
    · exact .inl (hq'.unique h.mem.queue.linked ▸ hmem)
    · exact .inr (held_other hj (by rw [hi, hl]; rintro ⟨⟩))
  cases hc with
  | @new k b t ts p hnew =>
    obtain ⟨-, rfl⟩ := newTask_ok hnew
    obtain rfl := hq'.unique (h.new hi hnew).mem.queue.linked
    by_cases hab : a = b
    · exact .inr ⟨.submitter k, by rw [Function.update_self, hab]; rfl⟩
    · have ha' : (s.pool.heap a).isSome := by
        change (Function.update s.pool.heap b (some ⟨t, none⟩) a).isSome at ha
        rwa [Function.update_of_ne hab] at ha
      rcases howned a ha' with hmem | ⟨j, hj⟩
      · exact .inl hmem
      · exact .inr (held_other hj (by rw [hi]; rintro ⟨⟩))
  | @link k b ts node p hnode hen =>
    obtain rfl := hq'.unique (h.link hi hnode hen).mem.queue.linked
    obtain ⟨t, ht⟩ := h.mem.fresh _ b ts hi
    have hheld : (L (.submitter k)).held = some b := by rw [hi]; rfl
    obtain ⟨-, hp, -⟩ := enqueue_ok h.mem.queue (h.mem.held _ b hheld).2 ht hen
    have ha' : (s.pool.heap a).isSome := by
      rw [← Option.isSome_map, ← hp.task a, Option.isSome_map]
      exact ha
    rcases howned a ha' with hmem | ⟨j, hj⟩
    · exact .inl (List.mem_append_left _ hmem)
    · by_cases hab : a = b
      · exact .inl (List.mem_append_right _ (hab ▸ List.mem_singleton_self a))
      · exact .inr (held_other hj (by rw [hheld]; exact fun he => hab (Option.some.inj he).symm))
  | @take w b p hh hd =>
    obtain ⟨r, rfl, hq, -, hheap⟩ := dequeue_ok h.mem.queue hh hd
    obtain rfl := hq'.unique hq.linked
    rw [show ({ s with pool := p, history := s.history.dequeue b } : Data n τ).pool.heap = s.pool.heap
      from hheap] at ha
    rcases howned a ha with hmem | ⟨j, hj⟩
    · rcases List.mem_cons.mp hmem with rfl | hmem
      · exact .inr ⟨.worker w, by rw [Function.update_self]; rfl⟩
      · exact .inl hmem
    · exact .inr (held_other hj (by rw [hi]; rintro ⟨⟩))
  | @run w b node hnode =>
    obtain rfl := hq'.unique (h.run hi hnode).mem.queue.linked
    have hab : a ≠ b := by
      rintro rfl
      rw [show (s.pool.free a).heap a = none from Function.update_self _ _ _] at ha
      cases ha
    rw [show (s.pool.free b).heap a = s.pool.heap a from Function.update_of_ne hab _ _] at ha
    rcases howned a ha with hmem | ⟨j, hj⟩
    · exact .inl hmem
    · exact .inr (held_other hj (by rw [hi]; exact fun he => hab (Option.some.inj he).symm))
  | clean hnode => cases h.ending.cleaned _ hi
  | _ => exact hsame rfl rfl rfl

theorem rest_congr {heap heap' : Addr → Option (TaskT τ)} {l : Loc τ}
    (h : ∀ a, l.held = some a → (heap' a).map TaskT.task = (heap a).map TaskT.task) :
    l.rest heap' = l.rest heap := by
  cases l with
  | linking a ts => rw [Loc.rest, Loc.rest, h a rfl]
  | _ => rfl

theorem submitters_update (k : κ) :
    (fun j => Function.update L (.submitter k) l' (.submitter j)) =
      Function.update (fun j => L (.submitter j)) k l' :=
  Function.update_comp_eq_of_injective L (fun _ _ h => Thread.submitter.inj h) k l'

variable [Fintype κ]

/-- The tasks still to submit after a step that changes the task of no node which a thread has to
itself. -/
theorem rest_other (hi : ∀ k, i ≠ .submitter k)
    (htask : ∀ k a, (L (.submitter k)).held = some a →
      (s'.pool.heap a).map TaskT.task = (s.pool.heap a).map TaskT.task) :
    ∑ k, ((Function.update L i l' (.submitter k)).rest s'.pool.heap : Multiset τ) =
      ∑ k, ((L (.submitter k)).rest s.pool.heap : Multiset τ) := by
  refine Finset.sum_congr rfl fun k _ => ?_
  rw [Function.update_of_ne (hi k).symm, rest_congr (htask k)]

/-- The same after a step of a submitter, which is now at `l'`. -/
theorem rest_submitter (heap heap' : Addr → Option (TaskT τ)) (l' : Loc τ) (k : κ)
    (htask : ∀ k a, (L (.submitter k)).held = some a →
      (heap' a).map TaskT.task = (heap a).map TaskT.task) :
    ∑ j, ((Function.update L (.submitter k) l' (.submitter j)).rest heap' : Multiset τ) +
        ((L (.submitter k)).rest heap : Multiset τ) =
      ∑ j, ((L (.submitter j)).rest heap : Multiset τ) + (l'.rest heap' : Multiset τ) := by
  have hsum := sum_update (fun _ l => (Loc.rest heap' l : Multiset τ)) (fun j => L (.submitter j)) k l'
  rw [← submitters_update] at hsum
  beta_reduce at hsum
  rw [rest_congr (htask k)] at hsum
  rw [hsum]
  congr 1
  exact Finset.sum_congr rfl fun j _ => by rw [rest_congr (htask j)]

/-- The tasks that have been submitted or are still to be remain the same. -/
theorem change_tasks {tasks : Multiset τ} (h : Inv L s q)
    (htasks : (s.history.submitted : Multiset τ) +
      ∑ k, ((L (.submitter k)).rest s.pool.heap : Multiset τ) = tasks)
    (hc : Change s i (L i) l' s' N) :
    (s'.history.submitted : Multiset τ) +
      ∑ k, ((Function.update L i l' (.submitter k)).rest s'.pool.heap : Multiset τ) = tasks := by
  generalize hi : L i = l at hc
  rw [← htasks]
  cases hc with
  | @new k a t ts p hnew =>
    obtain ⟨hfree, rfl⟩ := newTask_ok hnew
    have hrest := rest_submitter (L := L) s.pool.heap (Function.update s.pool.heap a (some ⟨t, none⟩))
      (.linking a ts) k (fun j b hb => by
        have hba : b ≠ a := by
          rintro rfl
          have hsome := (h.mem.held _ b hb).1
          rw [hfree] at hsome
          cases hsome
        exact congrArg (Option.map TaskT.task) (Function.update_of_ne hba _ _))
    have hsame : Loc.rest (Function.update s.pool.heap a (some ⟨t, none⟩)) (.linking a ts) =
        (Loc.calling (t :: ts)).rest s.pool.heap := by
      show ((Function.update s.pool.heap a (some ⟨t, none⟩) a).map TaskT.task).toList ++ ts = t :: ts
      rw [Function.update_self]
      rfl
    rw [hi] at hrest
    exact congrArg _ (add_right_cancel (hrest.trans (congrArg _ (congrArg _ hsame))))
  | @link k a ts node p hnode hen =>
    obtain ⟨t, ht⟩ := h.mem.fresh _ a ts hi
    have hheld : (L (.submitter k)).held = some a := by rw [hi]; rfl
    obtain ⟨-, hp, -⟩ := enqueue_ok h.mem.queue (h.mem.held _ a hheld).2 ht hen
    have hrest := rest_submitter (L := L) s.pool.heap p.heap (.calling ts) k fun j b _ => hp.task b
    have hone : ((Loc.linking a ts).rest s.pool.heap : Multiset τ) =
        {node.task} + ((Loc.calling ts).rest p.heap : Multiset τ) := by
      show ((((s.pool.heap a).map TaskT.task).toList ++ ts : List τ) : Multiset τ) = _
      rw [hnode]
      rfl
    rw [hi, hone, ← add_assoc] at hrest
    have hrest := add_right_cancel hrest
    show ((s.history.submitted ++ [node.task] : List τ) : Multiset τ) + _ = _
    rw [← Multiset.coe_add, add_assoc, add_comm (([node.task] : List τ) : Multiset τ)]
    exact congrArg _ hrest
  | @take w a p hh hd =>
    obtain ⟨r, -, -, -, hheap⟩ := dequeue_ok h.mem.queue hh hd
    exact congrArg _ (rest_other (by rintro k ⟨⟩) fun k b _ => by
      rw [show ({ s with pool := p, history := s.history.dequeue a } : Data n τ).pool.heap = s.pool.heap
        from hheap])
  | @run w a node hnode =>
    refine congrArg _ (rest_other (by rintro k ⟨⟩) fun k b hb => ?_)
    have hba : b ≠ a := by
      rintro rfl
      have heq := h.mem.unique (.submitter k) (.worker w) b hb (by rw [hi]; rfl)
      cases heq
    exact congrArg (Option.map TaskT.task) (Function.update_of_ne hba _ _)
  | clean hnode => cases h.ending.cleaned _ hi
  | _ => exact congrArg _ (rest_other (by rintro k ⟨⟩) fun k b _ => rfl)

omit [Fintype κ] in
theorem change_joined (h : Inv L s q) (hjoined : (∃ t, L .destroyer = .cleanup t) ∨
      L .destroyer = .destroyed → ∀ w, L (.worker w) = .exited) (hc : Change s i (L i) l' s' N)
    (hdone : (∃ t, Function.update L i l' .destroyer = .cleanup t) ∨
      Function.update L i l' .destroyer = .destroyed) (w : Fin n) :
    Function.update L i l' (.worker w) = .exited := by
  generalize hi : L i = l at hc
  -- before the last join nothing is asked of the workers, and after it they have returned
  have hsubmit : ∀ {k : κ}, i = .submitter k → Function.update L i l' (.worker w) = .exited := by
    rintro k rfl
    rw [Function.update_of_ne (by rintro ⟨⟩)] at hdone ⊢
    exact hjoined hdone w
  have hworker : ∀ {v : Fin n}, i = .worker v → l ≠ .exited →
      Function.update L i l' (.worker w) = .exited := by
    rintro v rfl hl
    rw [Function.update_of_ne (by rintro ⟨⟩)] at hdone
    exact absurd (hi.symm.trans (hjoined hdone v)) hl
  cases hc with
  | @joined k hk =>
    rw [Function.update_of_ne (by rintro ⟨⟩)]
    exact h.ending.returned w (h.ending.joined k hi w (w.isLt.trans_le hk))
  | freed =>
    rw [Function.update_of_ne (by rintro ⟨⟩)]
    exact hjoined (.inl ⟨_, hi⟩) w
  | clean hnode => cases h.ending.cleaned _ hi
  | shut =>
    rw [Function.update_self] at hdone
    rcases hdone with ⟨t, ht⟩ | ht <;> cases ht
  | join hk hr =>
    rw [Function.update_self] at hdone
    rcases hdone with ⟨t, ht⟩ | ht <;> cases ht
  | new hnew => exact hsubmit rfl
  | link hnode hen => exact hsubmit rfl
  | take hh hd => exact hworker rfl (by rintro ⟨⟩)
  | quit hh hs => exact hworker rfl (by rintro ⟨⟩)
  | run hnode => exact hworker rfl (by rintro ⟨⟩)
  | count => exact hworker rfl (by rintro ⟨⟩)
  | ret => exact hworker rfl (by rintro ⟨⟩)

omit [Fintype κ] in
theorem change_exited (hexited : ∀ w, L (.worker w) = .exited → s.returned w = true)
    (hc : Change s i (L i) l' s' N) (w : Fin n)
    (hw : Function.update L i l' (.worker w) = .exited) : s'.returned w = true := by
  by_cases hi : .worker w = i
  · subst hi
    rw [Function.update_self] at hw
    subst hw
    generalize L (.worker w) = l at hc
    cases hc
    exact Function.update_self _ _ _
  · rw [Function.update_of_ne hi] at hw
    have hret := hexited w hw
    generalize L i = l at hc
    cases hc with
    | @ret v =>
      have hwv : w ≠ v := fun hwv => hi (congrArg _ hwv)
      exact (Function.update_of_ne hwv _ _).trans hret
    | _ => exact hret

/-- What a step of the code keeps. -/
theorem DrainInv.change {todo : κ → List τ} (hd : DrainInv todo L s q) (h : Inv L s q)
    (hc : Change s i (L i) l' s' N) (h' : Inv (Function.update L i l') s' q') :
    DrainInv todo (Function.update L i l') s' q' where
  kind := (Function.forall_update_iff L OfKind).mpr
    ⟨change_kind hc (hd.kind i), fun j _ => hd.kind j⟩
  owned a ha := change_owned h hd.owned hc h' ha
  tasks := change_tasks h hd.tasks hc
  shut := by
    intro hne
    by_cases hi : L .destroyer = .destroy
    · -- the step is the shutdown
      have hd' : i = .destroyer := by
        by_contra hne'
        rw [Function.update_of_ne (Ne.symm hne')] at hne
        exact hne hi
      subst hd'
      rw [hi] at hc
      cases hc
      rfl
    · exact change_shutdown hc (hd.shut hi)
  joined := change_joined h hd.joined hc
  freed := by
    by_cases hi : i = .destroyer
    · subst hi
      rw [Function.update_self]
      have hno := hd.freed
      generalize L .destroyer = l at hc hno
      cases hc with
      | freed => exact ⟨fun _ => rfl, fun _ => rfl⟩
      | _ => exact ⟨fun hs => absurd (hno.mp hs) (by rintro ⟨⟩), fun hs => by cases hs⟩
    · rw [change_freed hc hi, Function.update_of_ne (Ne.symm hi)]
      exact hd.freed
  exited := change_exited hd.exited hc
  counted := change_counted h hd.counted hc

end Change

theorem drainInv_start [Fintype κ] (todo : κ → List τ) :
    DrainInv todo (firstLoc todo : Thread n κ → Loc τ) ⟨.create, fun _ => false, .none⟩ [] where
  kind i := by cases i <;> trivial
  owned a ha := by cases ha
  tasks := zero_add _
  shut hne := absurd rfl hne
  joined hdone := by rcases hdone with ⟨t, ht⟩ | ht <;> cases ht
  freed := ⟨fun hs => (by cases hs), fun hs => (by cases hs)⟩
  exited w hw := by cases hw
  counted := ⟨Int.le_refl 0, by show (0 : Int) < 2 ^ 31; decide⟩

/-- Both invariants, wherever the nodes of the queue are. -/
def Drains [Fintype κ] (todo : κ → List τ) (L : Thread n κ → Loc τ) (s : Data n τ) : Prop :=
  ∃ q, Inv L s q ∧ DrainInv todo L s q

theorem drain_reach [DecidableEq κ] [Fintype κ] (hn : 0 < n) {todo : κ → List τ} {S : PoolState n κ τ}
    (h : Machine.Reach (step code) SubmitsBeforeDestroy (start todo) S) : Drains todo S.loc S.data := by
  have hchange : ∀ {L : Thread n κ → Loc τ} {s s' : Data n τ} {i : Thread n κ} {l' : Loc τ}
      {N : Notify Cond}, Drains todo L s → Change s i (L i) l' s' N →
      (i = .destroyer → L i = .destroy → ∀ k, L (.submitter k) = .calling []) →
      Drains todo (Function.update L i l') s' := by
    rintro L s s' i l' N ⟨q, hq, hd⟩ hc hg
    obtain ⟨q', hq'⟩ := hq.change hn hc hg
    exact ⟨q', hq', hd.change hq hc hq'⟩
  have h0 : Drains todo (start (n := n) todo).loc (start todo).data :=
    ⟨[], inv_start todo, drainInv_start todo⟩
  refine Reach.loc_data h0 ?_ ?_ h
  · intro S i x woken f l' s' hS hg hc hf
    refine hchange hS (plain_change hc hf) ?_
    rintro rfl
    exact hg
  · intro S i x woken m body l' s' N hS hg hc hb
    refine hchange hS (unlock_change hc hb) ?_
    rintro rfl
    exact hg

/-! ## The number of steps -/

theorem dequeued_length {L : Thread n κ → Loc τ} {s : Data n τ} {q : List Addr} (h : Inv L s q) :
    s.history.dequeued.length + q.length = s.history.submitted.length := by
  have hlen := congrArg List.length h.task.numbers
  rwa [List.length_append, List.length_map, List.length_range] at hlen

section Steps

variable [DecidableEq κ] [Fintype κ]

theorem change_stepsLeft {L : Thread n κ → Loc τ} {s s' : Data n τ} {q : List Addr} {i : Thread n κ}
    {l' : Loc τ} {N : Notify Cond} (h : Inv L s q) (hc : Change s i (L i) l' s' N) :
    stepsLeft (Function.update L i l') s' < stepsLeft L s := by
  have hsum := sum_update (fun _ l => Loc.todo n l) L i l'
  have hlen := dequeued_length h
  -- a step that neither submits nor takes a task
  have hless : s'.history.submitted = s.history.submitted → s'.history.dequeued = s.history.dequeued →
      l'.todo n < (L i).todo n → stepsLeft (Function.update L i l') s' < stepsLeft L s := by
    intro hsub hdeq hlt
    rw [stepsLeft, stepsLeft, hsub, hdeq]
    omega
  generalize hi : L i = l at hc hless hsum
  cases hc with
  | new hnew => exact hless rfl rfl (Nat.lt_succ_self _)
  | @link k a ts node p hnode hen =>
    change _ + (5 * ts.length + 4) = _ + 5 * ts.length at hsum
    show _ + 3 * ((s.history.submitted ++ [node.task]).length - s.history.dequeued.length) < _
    rw [List.length_append, List.length_singleton, stepsLeft]
    omega
  | @take w a p hh hd =>
    obtain ⟨r, rfl, -⟩ := dequeue_ok h.mem.queue hh hd
    change _ + 2 = _ + 4 at hsum
    show _ + 3 * (s.history.submitted.length - (s.history.dequeued ++ [s.history.number a]).length) < _
    rw [List.length_append, List.length_singleton, stepsLeft]
    rw [List.length_cons] at hlen
    omega
  | quit hh hs => exact hless rfl rfl (by show 1 < 2; decide)
  | run hnode => exact hless rfl rfl (by show 3 < 4; decide)
  | count => exact hless rfl rfl (by show 2 < 3; decide)
  | ret => exact hless rfl rfl (by show 0 < 1; decide)
  | shut => exact hless rfl rfl (Nat.lt_succ_self _)
  | @join k hk hr =>
    refine hless rfl rfl ?_
    show n - (k + 1) + 2 < n - k + 2
    omega
  | joined hk => exact hless rfl rfl (Nat.succ_lt_succ (Nat.succ_pos _))
  | clean hnode => cases h.ending.cleaned _ hi
  | freed => exact hless rfl rfl (by show 0 < 1; decide)

theorem code_lowers : Lowers (code : Thread n κ → Loc τ → Act Mutex Cond Addr (Loc τ) (Data n τ))
    PoolInv stepsLeft where
  plain := by
    rintro L i f x s l' s' ⟨q, hq⟩ hc hf
    exact change_stepsLeft hq (plain_change hc hf)
  unlock := by
    rintro L i m body s l' s' N ⟨q, hq⟩ hc hb
    exact change_stepsLeft hq (unlock_change hc hb)

end Steps

/-- The threads are the workers, the submitters and the destroyer. -/
def threadEquiv : Thread n κ ≃ (Fin n ⊕ κ) ⊕ Unit where
  toFun
    | .worker w => .inl (.inl w)
    | .submitter k => .inl (.inr k)
    | .destroyer => .inr ()
  invFun
    | .inl (.inl w) => .worker w
    | .inl (.inr k) => .submitter k
    | .inr () => .destroyer
  left_inv i := by cases i <;> rfl
  right_inv i := by rcases i with (w | k) | u <;> rfl

theorem card_thread [Fintype κ] : Fintype.card (Thread n κ) = n + Fintype.card κ + 1 := by
  rw [Fintype.card_congr threadEquiv, Fintype.card_sum, Fintype.card_sum, Fintype.card_fin,
    Fintype.card_unit]

theorem sum_thread [Fintype κ] (f : Thread n κ → Nat) :
    ∑ i, f i = ∑ w, f (.worker w) + ∑ k, f (.submitter k) + f .destroyer := by
  rw [← Equiv.sum_comp threadEquiv.symm, Fintype.sum_sum_type, Fintype.sum_sum_type,
    Fintype.sum_unique (ι := Unit)]
  rfl

theorem stepBound_start [DecidableEq κ] [Fintype κ] (todo : κ → List τ) :
    stepBound stepsLeft (start todo : PoolState n κ τ) =
      (2 * (n + Fintype.card κ) + 4) * (3 * n + 5 * ∑ k, (todo k).length + 3) +
        2 * (n + Fintype.card κ + 1) := by
  have htodo : stepsLeft (start todo : PoolState n κ τ).loc (start todo : PoolState n κ τ).data =
      3 * n + 5 * ∑ k, (todo k).length + 3 := by
    show ∑ i : Thread n κ, (firstLoc todo i).todo n + 0 = _
    rw [sum_thread]
    show ∑ _ : Fin n, 2 + ∑ k, 5 * (todo k).length + (n + 3) + 0 = _
    rw [Finset.sum_const, Finset.card_univ, Fintype.card_fin, Nat.nsmul_eq_mul, Finset.mul_sum]
    omega
  have hweight : ∑ i : Thread n κ, ((start todo : PoolState n κ τ).thread i).weight =
      2 * (n + Fintype.card κ + 1) := by
    show ∑ _ : Thread n κ, 2 = _
    rw [Finset.sum_const, Finset.card_univ, card_thread, Nat.nsmul_eq_mul, Nat.mul_comm]
  rw [stepBound, htodo, hweight, card_thread, Nat.mul_add 2 _ 1]

/-! ## Critical sections come to their ends -/

theorem dequeue_isSome {p : Pool τ} {q : List Addr} {a : Addr} (h : QueueOk p q)
    (ha : p.queue.head = some a) (hlen : q.length < 2 ^ 31) : (p.dequeue a).isSome := by
  rcases q with _ | ⟨b, r⟩
  · rw [h.head_eq_none.mpr rfl] at ha
    cases ha
  obtain ⟨hhead, node, hnode, -⟩ := h.linked
  obtain rfl : b = a := Option.some.inj (hhead.symm.trans ha)
  have hcount : intArith (p.queue.taskCount - 1) = some (r.length : Int) := by
    rw [h.count, List.length_cons, Int.natCast_succ, Int.add_sub_cancel]
    exact intArith_natCast ((Nat.lt_succ_self _).trans hlen)
  simp only [Pool.dequeue, hnode, hcount, Option.bind_eq_bind, Option.bind_some]
  rfl

theorem enqueue_isSome {p : Pool τ} {q : List Addr} (a : Addr) (h : QueueOk p q)
    (hlen : q.length + 1 < 2 ^ 31) : (p.enqueue a).isSome := by
  have hcount : intArith (p.queue.taskCount + 1) = some ((q.length + 1 : Nat) : Int) := by
    rw [h.count]
    exact intArith_natCast hlen
  have hlink : ∃ p', p.linkTask a = some p' ∧ p'.queue.taskCount = p.queue.taskCount := by
    unfold Pool.linkTask
    cases ht : p.queue.tail with
    | none => exact ⟨_, rfl, rfl⟩
    | some z =>
      have hz := List.mem_of_getLast? (h.tail.symm.trans ht)
      obtain ⟨node, hnode⟩ := Option.isSome_iff_exists.mp (h.linked.isSome hz)
      simp only [Pool.setNext, hnode, Option.map_some]
      exact ⟨_, rfl, rfl⟩
  obtain ⟨p', hp', hsame⟩ := hlink
  simp only [Pool.enqueue, hp', hsame, hcount, Option.bind_eq_bind, Option.bind_some]
  rfl

theorem executed_length_le {L : Thread n κ → Loc τ} {s : Data n τ} {q : List Addr} (h : Inv L s q) :
    s.history.executed.length ≤ s.history.submitted.length := by
  have hsub : s.history.executedNumbers ⊆ List.range s.history.submitted.length := fun k hk =>
    List.mem_range.mpr (h.task.lt (.inl ((h.task.taken k).mpr (.inl hk))))
  have hlen := (List.subperm_of_subset h.task.nodup hsub).length_le
  rwa [History.executedNumbers, List.length_map, List.length_range] at hlen

section Defined

variable [Fintype κ] {todo : κ → List τ} {L : Thread n κ → Loc τ} {s : Data n τ} {q : List Addr}

theorem DrainInv.length_tasks (h : DrainInv todo L s q) : s.history.submitted.length +
    ∑ k, ((L (.submitter k)).rest s.pool.heap).length = ∑ k, (todo k).length := by
  have hcard := congrArg Multiset.card h.tasks
  rw [Multiset.card_add, Multiset.card_sum, Multiset.card_sum] at hcard
  exact hcard

/-- Whoever locks a mutex of the pool finds the pool. -/
theorem DrainInv.not_freed (h : DrainInv todo L s q) (hq : Inv L s q) {i : Thread n κ} {m : Mutex}
    {body : Data n τ → Option (Exit Cond (Loc τ) (Data n τ))} (hc : code i (L i) = .lock m body) :
    s.pool.freed ≠ true := by
  intro hf
  have hd := h.freed.mp hf
  have hexit := h.joined (.inr hd)
  have hclosed := hq.ending.closed (h.shut (by rw [hd]; rintro ⟨⟩))
  rcases lock_cases hc with ⟨w, rfl, hl, -⟩ | ⟨w, rfl, hl, -⟩ | ⟨k, a, ts, rfl, hl, -⟩ | ⟨rfl, hl, -⟩
  · cases hl.symm.trans (hexit w)
  · cases hl.symm.trans (hexit w)
  · cases hl.symm.trans (hclosed k)
  · cases hl.symm.trans hd

/-- Every critical section has a result, while the tasks can be counted in an `int`. -/
theorem DrainInv.body_isSome (h : DrainInv todo L s q) (hq : Inv L s q)
    (hsmall : ∑ k, (todo k).length < 2 ^ 31) {i : Thread n κ} {m : Mutex}
    {body : Data n τ → Option (Exit Cond (Loc τ) (Data n τ))} (hc : code i (L i) = .lock m body) :
    (body s).isSome := by
  have hpool : ∀ b : Data n τ → Option (Exit Cond (Loc τ) (Data n τ)), onPool b s = b s := fun b =>
    if_neg (h.not_freed hq hc)
  have htotal := h.length_tasks
  have hlen := dequeued_length hq
  rcases lock_cases hc with ⟨w, rfl, hl, rfl⟩ | ⟨w, rfl, hl, rfl⟩ | ⟨k, a, ts, rfl, hl, rfl⟩ |
    ⟨rfl, hl, rfl⟩
  · rw [hpool]
    unfold takeTask
    split
    · split <;> rfl
    · next a ha =>
      rw [Option.isSome_map]
      exact dequeue_isSome hq.mem.queue ha (by omega)
  · have hone : 0 < numCounting L :=
      Finset.card_pos.mpr ⟨w, Finset.mem_filter.mpr ⟨Finset.mem_univ w, by rw [hl]; rfl⟩⟩
    have hcount := hq.count
    have hexec := executed_length_le hq
    have hcounted := h.counted
    rw [hpool, countTask, intArith_of_range (by omega) (by omega)]
    rfl
  · obtain ⟨t, ht⟩ := hq.mem.fresh _ a ts hl
    have hrest : 1 ≤ ∑ k, ((L (.submitter k)).rest s.pool.heap).length := by
      have hle := Finset.single_le_sum (f := fun k => ((L (.submitter k)).rest s.pool.heap).length)
        (fun _ _ => Nat.zero_le _) (Finset.mem_univ k)
      refine Nat.le_trans ?_ hle
      simp only [hl, Loc.rest, ht, Option.map_some, Option.toList_some, List.length_append,
        List.length_singleton]
      exact Nat.le_add_right 1 _
    obtain ⟨p, hp⟩ := Option.isSome_iff_exists.mp (enqueue_isSome a hq.mem.queue (by omega))
    rw [hpool]
    simp only [submitTask, ht, hp, Option.bind_eq_bind, Option.bind_some]
    rfl
  · rw [hpool]
    rfl

end Defined

/-! ## No deadlock -/

/-- `malloc` finds a free address. -/
theorem exists_free [Fintype κ] {todo : κ → List τ} {L : Thread n κ → Loc τ} {s : Data n τ}
    {q : List Addr} (h : DrainInv todo L s q) : ∃ a, s.pool.heap a = none := by
  obtain ⟨a, ha⟩ := Infinite.exists_notMem_finset
    (q.toFinset ∪ Finset.univ.biUnion fun i => (L i).held.toFinset)
  refine ⟨a, Option.not_isSome_iff_eq_none.mp fun hsome => ha ?_⟩
  rcases h.owned a hsome with hq | ⟨i, hi⟩
  · exact Finset.mem_union_left _ (List.mem_toFinset.mpr hq)
  · exact Finset.mem_union_right _
      (Finset.mem_biUnion.mpr ⟨i, Finset.mem_univ i, Option.mem_toFinset.mpr hi⟩)

section Reached

variable [DecidableEq κ] [Fintype κ] {todo : κ → List τ} {S : PoolState n κ τ}

/-- While `pool_destroy` is in its critical section, nobody submits. -/
theorem inside_destroy (h : Machine.Reach (step code) SubmitsBeforeDestroy (start todo) S) {l : Loc τ}
    (hl : S.thread .destroyer = .inside l) (k : κ) : S.loc (.submitter k) = .calling [] := by
  induction h generalizing l with
  | init => cases hl
  | @next S S' e r hS hg hs ih =>
    have hbefore : S.loc (.submitter k) = .calling [] := by
      rcases inside_of_step hs hl with hl | ⟨x, woken, m, body, rfl, hl, hc⟩
      · exact ih hl
      · rcases lock_cases hc with ⟨w, hw, -⟩ | ⟨w, hw, -⟩ | ⟨k, a, ts, hk, -⟩ | ⟨-, rfl, -⟩
        · cases hw
        · cases hw
        · cases hk
        · exact hg (congrArg Status.loc hl) k
    rw [loc_of_stop (by rw [hbefore]; rfl) hs]
    exact hbefore

/-- A thread that has not ended, and that is not blocked, can go on, or one in a critical section can; in
either case by a step that does not submit after the shutdown. -/
theorem goes (hn : 0 < n) (hsmall : ∑ k, (todo k).length < 2 ^ 31)
    (h : Machine.Reach (step code) SubmitsBeforeDestroy (start todo) S) {i : Thread n κ}
    (hi : i = .destroyer → ∀ k, S.loc (.submitter k) = .calling []) (hb : ¬ Blocked code S i) :
    ∃ j x woken, SubmitsBeforeDestroy S (.go j x woken) ∧ (step code S (.go j x woken)).isSome := by
  obtain ⟨q, hq, hd⟩ := drain_reach hn h
  have hdef : ∀ {j : Thread n κ} {l : Loc τ} {m : Mutex}
      {body : Data n τ → Option (Exit Cond (Loc τ) (Data n τ))}, S.thread j = .inside l →
      code j l = .lock m body → (body S.data).isSome := by
    intro j l m body hj hc
    refine hd.body_isSome hq hsmall (i := j) (m := m) ?_
    rw [show S.loc j = l from congrArg Status.loc hj]
    exact hc
  obtain ⟨j, x, woken, hj, hgo⟩ := ((Exclusive.reach h).go_or_blocked 0 hdef i).resolve_right hb
  refine ⟨j, x, woken, ?_, hgo⟩
  cases j with
  | destroyer =>
    intro _
    rcases hj with hj | ⟨l, hl⟩
    · exact hi hj.symm
    · exact inside_destroy h hl
  | worker w => trivial
  | submitter k => trivial

/-- Only workers sleep. -/
theorem asleep_worker (h : Machine.Reach (step code) SubmitsBeforeDestroy (start todo) S)
    {i : Thread n κ} {c : Cond} {l : Loc τ} (hl : S.thread i = .asleep c l) : ∃ w, i = .worker w := by
  cases c
  obtain ⟨⟨hw, -⟩, -⟩ := code_attended.reach h i l hl
  exact hw

theorem submitter_not_blocked (hn : 0 < n)
    (h : Machine.Reach (step code) SubmitsBeforeDestroy (start todo) S) {k : κ}
    (hk : S.loc (.submitter k) ≠ .calling []) : ¬ Blocked code S (.submitter k) := by
  obtain ⟨q, hq, hd⟩ := drain_reach hn h
  have hkind := hd.kind (.submitter k)
  intro hb
  cases hb with
  | @asleep c l hl =>
    obtain ⟨w, hw⟩ := asleep_worker h hl
    cases hw
  | @stopped l hl hc =>
    rw [show S.loc (.submitter k) = l from congrArg Status.loc hl] at hk hkind
    match l, hkind with
    | .calling [], _ => exact hk rfl
    | .calling (t :: ts), _ => cases hc
    | .linking a ts, _ => cases hc
  | @plain l f hl hc hf =>
    rw [show S.loc (.submitter k) = l from congrArg Status.loc hl] at hk hkind
    match l, hkind with
    | .calling [], _ => exact hk rfl
    | .calling (t :: ts), _ =>
      obtain ⟨a, ha⟩ := exists_free hd
      cases hc
      have hnone := hf a
      simp only [Pool.newTask, ha, Option.isNone_none, if_true, Option.map_some] at hnone
      cases hnone
    | .linking a ts, _ => cases hc

theorem worker_not_blocked (hn : 0 < n)
    (h : Machine.Reach (step code) SubmitsBeforeDestroy (start todo) S) {w : Fin n}
    (hshut : S.data.pool.queue.shutdown = true) (hw : S.loc (.worker w) ≠ .exited) :
    ¬ Blocked code S (.worker w) := by
  obtain ⟨q, hq, hd⟩ := drain_reach hn h
  have hkind := hd.kind (.worker w)
  intro hb
  cases hb with
  | @asleep c l hl =>
    cases c
    exact code_announced.no_sleeper h hshut (.worker w) ⟨l, hl⟩
  | @stopped l hl hc =>
    rw [show S.loc (.worker w) = l from congrArg Status.loc hl] at hw hkind
    cases l with
    | exited => exact hw rfl
    | top => cases hc
    | running a => cases hc
    | counting => cases hc
    | leaving => cases hc
    | _ => exact hkind
  | @plain l f hl hc hf =>
    have hloc : S.loc (.worker w) = l := congrArg Status.loc hl
    rw [hloc] at hw hkind
    cases l with
    | exited => exact hw rfl
    | top => cases hc
    | running a =>
      cases hc
      obtain ⟨node, hnode⟩ := Option.isSome_iff_exists.mp (hq.isSome (.inr ⟨w, hloc⟩))
      have hnone := hf 0
      simp only [runTask, hnode, Option.map_some] at hnone
      cases hnone
    | counting => cases hc
    | leaving =>
      cases hc
      cases hf 0
    | _ => exact hkind

/-- `pool_destroy` waits only for a worker that has not returned. -/
theorem destroyer_not_blocked (hn : 0 < n)
    (h : Machine.Reach (step code) SubmitsBeforeDestroy (start todo) S)
    (hjoin : ∀ k (hk : k < n), S.loc .destroyer = .join k → S.loc (.worker ⟨k, hk⟩) = .exited)
    (hend : S.loc .destroyer ≠ .destroyed) : ¬ Blocked code S .destroyer := by
  obtain ⟨q, hq, hd⟩ := drain_reach hn h
  have hkind := hd.kind .destroyer
  intro hb
  cases hb with
  | @asleep c l hl =>
    obtain ⟨w, hw⟩ := asleep_worker h hl
    cases hw
  | @stopped l hl hc =>
    rw [show S.loc .destroyer = l from congrArg Status.loc hl] at hend hkind
    match l, hkind with
    | .destroyed, _ => exact hend rfl
    | .destroy, _ => cases hc
    | .join k, _ => cases hc
    | .cleanup none, _ => cases hc
    | .cleanup (some t), _ => cases hc
  | @plain l f hl hc hf =>
    have hloc : S.loc .destroyer = l := congrArg Status.loc hl
    rw [hloc] at hend hkind
    match l, hkind with
    | .destroyed, _ => exact hend rfl
    | .destroy, _ => cases hc
    | .join k, _ =>
      cases hc
      have hnone := hf 0
      dsimp only at hnone
      split at hnone
      · next hk =>
        rw [if_pos (hd.exited _ (hjoin k hk hloc))] at hnone
        cases hnone
      · cases hnone
    | .cleanup none, _ =>
      cases hc
      cases hf 0
    | .cleanup (some t), _ => cases hq.ending.cleaned _ hloc

/-- While some thread has not ended, some thread can go on. -/
theorem someone_goes (hn : 0 < n) (hsmall : ∑ k, (todo k).length < 2 ^ 31)
    (h : Machine.Reach (step code) SubmitsBeforeDestroy (start todo) S)
    (hleft : ∃ i, (S.loc i).ended = false) :
    ∃ i x woken, SubmitsBeforeDestroy S (.go i x woken) ∧ (step code S (.go i x woken)).isSome := by
  by_cases hdone : ∀ k, S.loc (.submitter k) = .calling []
  · obtain ⟨q, hq, hd⟩ := drain_reach hn h
    by_cases hend : S.loc .destroyer = .destroyed
    · have hexit := hd.joined (.inr hend)
      obtain ⟨i, hi⟩ := hleft
      cases i with
      | worker w => rw [hexit w] at hi; cases hi
      | submitter k => rw [hdone k] at hi; cases hi
      | destroyer => rw [hend] at hi; cases hi
    · by_cases hjoin : ∀ k (hk : k < n), S.loc .destroyer = .join k → S.loc (.worker ⟨k, hk⟩) = .exited
      · exact goes hn hsmall h (fun _ => hdone) (destroyer_not_blocked hn h hjoin hend)
      · -- the worker for which `pool_destroy` waits has been told of the shutdown
        obtain ⟨k, hjoin⟩ := not_forall.mp hjoin
        obtain ⟨hk, hjoin⟩ := not_forall.mp hjoin
        obtain ⟨hloc, hw⟩ := Classical.not_imp.mp hjoin
        have hshut := hd.shut (by rw [hloc]; rintro ⟨⟩)
        exact goes hn hsmall h (by rintro ⟨⟩) (worker_not_blocked hn h hshut hw)
  · obtain ⟨k, hk⟩ := not_forall.mp hdone
    exact goes hn hsmall h (by rintro ⟨⟩) (submitter_not_blocked hn h hk)

end Reached

/-! ## The end -/

/-- The tasks that were executed are those whose numbers were. -/
theorem map_executed {L : Thread n κ → Loc τ} {s : Data n τ} {q : List Addr} (h : Inv L s q)
    (hperm : s.history.executedNumbers.Perm (List.range s.history.submitted.length)) :
    (s.history.executed.map Prod.snd : Multiset τ) = s.history.submitted := by
  have hexec : s.history.executed.map (fun e => some e.2) =
      s.history.executedNumbers.map fun k => s.history.submitted[k]? := by
    rw [History.executedNumbers, List.map_map]
    exact List.map_congr_left fun e he => (h.task.tasks e he).symm
  have hsub : (List.range s.history.submitted.length).map (fun k => s.history.submitted[k]?) =
      s.history.submitted.map some := by
    refine List.ext_getElem? fun k => ?_
    rw [List.getElem?_map, List.getElem?_map]
    by_cases hk : k < s.history.submitted.length
    · rw [List.getElem?_range hk, Option.map_some, List.getElem?_eq_getElem hk]
      rfl
    · rw [List.getElem?_eq_none (by simpa using hk), List.getElem?_eq_none (by simpa using hk)]
      rfl
  refine Multiset.map_injective (Option.some_injective τ) (Multiset.coe_eq_coe.mpr ?_)
  rw [List.map_map, ← hsub]
  exact hexec ▸ hperm.map _

theorem worker_ended {w : Fin n} {l : Loc τ} (hl : OfKind (κ := κ) (.worker w) l) (he : l.ended = true) :
    l = .exited := by
  cases l with
  | exited => rfl
  | calling ts => exact hl.elim
  | destroyed => exact hl.elim
  | _ => cases he

/-- What a pool leaves behind on which `pool_submit` was called with `tasks`: each was executed once, and
all memory was freed. -/
structure Drained (tasks : Multiset τ) (s : Data n τ) : Prop where
  executed : (s.history.executed.map Prod.snd : Multiset τ) = tasks
  noNode : ∀ a, s.pool.heap a = none
  freed : s.pool.freed = true

theorem drained [DecidableEq κ] [Fintype κ] (hn : 0 < n) {todo : κ → List τ} {S : PoolState n κ τ}
    (h : Machine.Reach (step code) SubmitsBeforeDestroy (start todo) S)
    (hended : ∀ i, (S.loc i).ended = true) : Drained (∑ k, (todo k : Multiset τ)) S.data := by
  obtain ⟨q, hq, hd⟩ := drain_reach hn h
  have hworker : ∀ w, S.loc (.worker w) = .exited := fun w =>
    worker_ended (hd.kind (.worker w)) (hended (.worker w))
  have hheld : ∀ i, (S.loc i).held = none := by
    intro i
    have hi := hended i
    generalize S.loc i = l at hi
    cases l with
    | running a => cases hi
    | linking a ts => cases hi
    | _ => rfl
  have hrest : ∀ k, (S.loc (.submitter k)).rest S.data.pool.heap = [] := by
    intro k
    have hk := hended (.submitter k)
    generalize S.loc (.submitter k) = l at hk
    cases l with
    | calling ts =>
      cases ts with
      | nil => rfl
      | cons t ts => cases hk
    | linking a ts => cases hk
    | _ => rfl
  have hdestroyed : S.loc .destroyer = .destroyed := by
    have hkind := hd.kind .destroyer
    have hend := hended .destroyer
    generalize S.loc .destroyer = l at hkind hend
    cases l with
    | destroyed => rfl
    | exited => exact hkind.elim
    | calling ts => exact hkind.elim
    | _ => cases hend
  obtain rfl : q = [] := (hq.ending.left ⟨0, hn⟩ (.inr (hworker _))).2
  refine ⟨?_, ?_, hd.freed.mpr hdestroyed⟩
  · have htasks := hd.tasks
    rw [Finset.sum_eq_zero fun k _ => by rw [hrest k]; rfl, add_zero] at htasks
    rw [map_executed hq (hq.all_executed rfl hworker), htasks]
  · intro a
    refine Option.not_isSome_iff_eq_none.mp fun hsome => ?_
    rcases hd.owned a hsome with ha | ⟨i, hi⟩
    · cases ha
    · rw [hheld i] at hi
      cases hi

/-- `n` workers, any number of threads that submit tasks, and one that destroys the pool when they have
submitted all, in any order of their steps: a run has at most so many steps, and three more for each
wake-up without a signal; while a thread has not ended, some thread can go on; and when all have ended,
each task has been executed once, and each node and the pool have been freed. -/
theorem pool_drains [DecidableEq κ] [Fintype κ] (hn : 0 < n) (todo : κ → List τ)
    (hsmall : ∑ k, (todo k).length < 2 ^ 31) {es : List (Event (Thread n κ) Addr)} {rs : List Unit}
    {S : PoolState n κ τ} (hl : Machine.Legal (step code) SubmitsBeforeDestroy (start todo) es)
    (hexec : Machine.exec (step code) (start todo) es = some (rs, S)) :
    es.length ≤ (2 * (n + Fintype.card κ) + 4) * (3 * n + 5 * ∑ k, (todo k).length + 3) +
      2 * (n + Fintype.card κ + 1) + (es.map Event.cost).sum ∧
    ((∃ i, (S.loc i).ended = false) → ∃ i x woken, SubmitsBeforeDestroy S (.go i x woken) ∧
      (step code S (.go i x woken)).isSome) ∧
    ((∀ i, (S.loc i).ended = true) → Drained (∑ k, (todo k : Multiset τ)) S.data) := by
  have h := Machine.Reach.exec_legal es .init hl hexec
  refine ⟨?_, someone_goes hn hsmall h, drained hn h⟩
  rw [← stepBound_start]
  exact code_lowers.length_le (fun S hS => poolInv_reach hn hS) hl hexec

/-- Two workers and two threads that submit a task each. The task that is allocated last is submitted
first; one worker runs it while the other takes the second, and the tasks end in the other order. Then
one worker waits for more, and `pool_destroy` wakes it up. The run goes up to the last join. -/
def twoTasks : List (Event (Thread 2 Bool) Addr) :=
  let w : Fin 2 → Thread 2 Bool := .worker
  let worker (i : Nat) (hi : i < 2) : Event (Thread 2 Bool) Addr := .go (w ⟨i, hi⟩) 0 ∅
  let w₀ := worker 0 Nat.two_pos
  let w₁ := worker 1 Nat.one_lt_two
  let submitter (b : Bool) (a : Addr) : Event (Thread 2 Bool) Addr := .go (.submitter b) a ∅
  let destroyer : Event (Thread 2 Bool) Addr := .go .destroyer 0 ∅
  [submitter false 5, submitter true 6, submitter true 0, submitter true 0, w₀, w₀, submitter false 0,
    submitter false 0, w₁, w₁, w₁, w₀, w₁, w₁, w₀, w₀, w₀, w₀, destroyer,
    .go .destroyer 0 {w ⟨0, Nat.two_pos⟩}, w₁, w₁, w₀, w₀, w₀, w₁, destroyer, destroyer]

theorem pool_drains_twoTasks :
    let es := twoTasks ++ [.go .destroyer 0 ∅, .go .destroyer 0 ∅]
    ∃ rs S, Machine.exec (step code) (start fun b => if b then [7] else [8]) es = some (rs, S) ∧
      es.length ≤ (2 * (2 + 2) + 4) * (3 * 2 + 5 * 2 + 3) + 2 * (2 + 2 + 1) + 0 ∧
      Drained {7, 8} S.data := by
  intro es
  have hlegal : Machine.Legal (step code) SubmitsBeforeDestroy
      (start fun b => if b then [7] else [8] : PoolState 2 Bool Nat) es := by decide +kernel
  have hend : (Machine.exec (step code) (start fun b => if b then [7] else [8] : PoolState 2 Bool Nat)
      es).map (fun p => decide (∀ i, (p.2.loc i).ended = true)) = some true := by decide +kernel
  obtain ⟨⟨rs, S⟩, hexec, hdone⟩ := Option.map_eq_some_iff.mp hend
  obtain ⟨hlen, -, hdrained⟩ :=
    pool_drains (by decide) (fun b : Bool => if b then [7] else [8]) (by decide) hlegal hexec
  exact ⟨rs, S, hexec, hlen, hdrained (of_decide_eq_true hdone)⟩

end ThreadPool
