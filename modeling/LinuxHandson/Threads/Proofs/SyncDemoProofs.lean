import LinuxHandson.Lib.Counting
import LinuxHandson.Threads.SyncDemo
import Mathlib.Algebra.BigOperators.Ring.Finset
import Mathlib.Algebra.Order.BigOperators.Group.Finset
import Mathlib.Algebra.Order.Ring.Nat

/-!
# The counters at the end

Each protected counter is the number of increments that the workers have made, because a worker that
has read it is alone under its lock until it has written it. When the results are read every worker has
ended; one that was stopped before it first ran has counted nothing.
-/

namespace SyncDemo

open CLib Kthread

variable {numIterations n : Nat} {S S' : State n} {e : Event n} {r : Unit}

/-! ## What a worker has done -/

/-- The round of a place. -/
def Loc.round : Loc → Nat
  | .forTest i => i
  | .loadUnprotected i => i
  | .storeUnprotected i _ => i
  | .atomicInc i => i
  | .lock _ i => i
  | .load _ i => i
  | .store _ i _ => i
  | .unlock _ i => i

/-- The three counters that are protected. -/
inductive Counter where
  | atomic
  | locked (m : Lock)
deriving DecidableEq

/-- The increment of the counter in its round has been made. -/
def Loc.past : Loc → Counter → Bool
  | .forTest _, _ => false
  | .loadUnprotected _, _ => false
  | .storeUnprotected _ _, _ => false
  | .atomicInc _, _ => false
  | .lock .mySpinlock _, c => c = .atomic
  | .load .mySpinlock _, c => c = .atomic
  | .store .mySpinlock _ _, c => c = .atomic
  | .unlock .mySpinlock _, c => c ≠ .locked .myMutex
  | .lock .myMutex _, c => c ≠ .locked .myMutex
  | .load .myMutex _, c => c ≠ .locked .myMutex
  | .store .myMutex _ _, c => c ≠ .locked .myMutex
  | .unlock .myMutex _, _ => true

/-- How often a worker has incremented a counter. -/
def done (numIterations : Nat) (c : Counter) : Place Loc → Nat
  | .running l => l.round + (l.past c).toNat
  | .returned => numIterations
  | _ => 0

/-- How often the workers have incremented a counter. -/
def total (numIterations : Nat) (c : Counter) (S : State n) : Nat :=
  ∑ k, done numIterations c (S.threads k).place

theorem total_moved (c : Counter) (k : Fin n) (t : Thread Loc) (s : Data n) :
    total numIterations c { S with threads := Function.update S.threads k t, data := s } +
        done numIterations c (S.threads k).place =
      total numIterations c S + done numIterations c t.place :=
  sum_update (fun _ (x : Thread Loc) => done numIterations c x.place) S.threads k t

/-! ## The invariant -/

/-- The number of workers that `sync_demo_init` has stopped. -/
def InitLoc.joined (n : Nat) : InitLoc → Nat
  | .create _ => 0
  | .stop k => k
  | .join k => k
  | .results => n

/-- A worker at `l` has not gone beyond the last round. -/
def Loc.Within (numIterations : Nat) : Loc → Prop
  | .forTest i => i ≤ numIterations
  | l => l.round < numIterations

/-- Where the threads can be. -/
structure Order (numIterations : Nat) (S : State n) : Prop where
  absent : ∀ k, S.init = .create k → ∀ i : Fin n, k ≤ i → S.threads i = .absent
  ended : ∀ i : Fin n, i < S.init.joined n → (S.threads i).Ended
  within : ∀ i l, (S.threads i).place = .running l → l.Within numIterations

/-- The worker owns the lock `m`. -/
def inside (m : Lock) : Place Loc → Bool
  | .running (.load m' _) => m' = m
  | .running (.store m' _ _) => m' = m
  | .running (.unlock m' _) => m' = m
  | _ => false

/-- Workers in a critical section own the lock, and what they have read is still there. -/
structure Locked (S : State n) : Prop where
  owner : ∀ m i, inside m (S.threads i).place = true → S.data.owner m = some i
  read : ∀ m i j v, (S.threads i).place = .running (.store m j v) → v = S.data.cnt m

/-- The counters count the increments, as numbers of type `int`. -/
structure Counted (numIterations : Nat) (S : State n) : Prop where
  atomicCnt : S.data.atomicCnt = cInt (total numIterations .atomic S)
  cnt : ∀ m, S.data.cnt m = cInt (total numIterations (.locked m) S)

/-- What holds in every reachable state. -/
structure Inv (numIterations : Nat) (S : State n) : Prop where
  order : Order numIterations S
  locked : Locked S
  counted : Counted numIterations S

theorem total_start (c : Counter) : total numIterations c (start : State n) = 0 :=
  Finset.sum_eq_zero fun _ _ => rfl

theorem inv_start : Inv numIterations (start : State n) := by
  refine ⟨⟨fun _ _ _ _ => rfl, ?_, nofun⟩, ⟨nofun, nofun⟩, ⟨?_, ?_⟩⟩
  · intro i hi
    exact absurd hi (Nat.not_lt_zero _)
  · rw [total_start]
    rfl
  · intro m
    rw [total_start]
    rfl

/-! ## A worker moves -/

theorem Locked.moved (h : Locked S) {k : Fin n} {t : Thread Loc} {s : Data n}
    (hother : ∀ m j, j ≠ k → inside m (S.threads j).place = true →
      s.owner m = S.data.owner m ∧ s.cnt m = S.data.cnt m)
    (howner : ∀ m, inside m t.place = true → s.owner m = some k)
    (hread : ∀ m j v, t.place = .running (.store m j v) → v = s.cnt m) :
    Locked { S with threads := Function.update S.threads k t, data := s } := by
  refine ⟨?_, ?_⟩
  · intro m i hi
    by_cases hik : i = k
    · subst hik
      exact howner m (by simpa using hi)
    · have hi' : inside m (S.threads i).place = true := by simpa [hik] using hi
      exact (hother m i hik hi').1.trans (h.owner m i hi')
  · intro m i j v hi
    by_cases hik : i = k
    · subst hik
      exact hread m j v (by simpa using hi)
    · have hi' : (S.threads i).place = .running (.store m j v) := by simpa [hik] using hi
      rw [h.read m i j v hi']
      refine (hother m i hik ?_).2.symm
      rw [hi']
      exact decide_eq_true rfl

/-- A lock has one owner. -/
theorem Locked.alone (h : Locked S) {m : Lock} {i j : Fin n}
    (hi : inside m (S.threads i).place = true) (hj : inside m (S.threads j).place = true) : i = j := by
  have := (h.owner m i hi).symm.trans (h.owner m j hj)
  exact Option.some.inj this

theorem Order.moved (h : Order numIterations S) {k : Fin n} {t : Thread Loc} {s : Data n}
    (hlive : (S.threads k).Live)
    (ht : ∀ l, t.place = .running l → l.Within numIterations) :
    Order numIterations { S with threads := Function.update S.threads k t, data := s } := by
  refine ⟨?_, ?_, ?_⟩
  · intro j hj i hi
    have hik : i ≠ k := by
      rintro rfl
      exact hlive.ne_absent (h.absent j hj i hi)
    show Function.update S.threads k t i = .absent
    rw [Function.update_of_ne hik]
    exact h.absent j hj i hi
  · intro i hi
    have hik : i ≠ k := by
      rintro rfl
      exact hlive.not_ended (h.ended i hi)
    show (Function.update S.threads k t i).Ended
    rw [Function.update_of_ne hik]
    exact h.ended i hi
  · intro i l hi
    by_cases hik : i = k
    · subst hik
      exact ht l (by simpa using hi)
    · exact h.within i l (by simpa [hik] using hi)

/-- A step that increments no counter. -/
theorem Counted.idle (h : Counted numIterations S) {k : Fin n} {t : Thread Loc} {s : Data n}
    (hdone : ∀ c, done numIterations c t.place = done numIterations c (S.threads k).place)
    (ha : s.atomicCnt = S.data.atomicCnt) (hc : s.cnt = S.data.cnt) :
    Counted numIterations { S with threads := Function.update S.threads k t, data := s } := by
  have htotal : ∀ c, total numIterations c
      { S with threads := Function.update S.threads k t, data := s } = total numIterations c S := by
    intro c
    have := @total_moved numIterations n S c k t s
    rw [hdone c] at this
    exact Nat.add_right_cancel this
  refine ⟨?_, ?_⟩
  · rw [htotal]
    exact ha.trans h.atomicCnt
  · intro m
    rw [htotal]
    exact (congrFun hc m).trans (h.cnt m)

theorem cInt_add_one (a : Int) : cInt (cInt a + 1) = cInt (a + 1) := Int.bmod_add_bmod

theorem Counted.atomicInc (h : Counted numIterations S) {k : Fin n} {i : Nat} {b : Bool}
    (hk : (S.threads k).place = .running (.atomicInc i)) :
    Counted numIterations { S with
      threads := Function.update S.threads k ⟨.running (.lock .mySpinlock i), b⟩
      data := { S.data with atomicCnt := cInt (S.data.atomicCnt + 1) } } := by
  have htotal : ∀ c, total numIterations c { S with
      threads := Function.update S.threads k ⟨.running (.lock .mySpinlock i), b⟩
      data := { S.data with atomicCnt := cInt (S.data.atomicCnt + 1) } } +
        done numIterations c (.running (.atomicInc i)) =
      total numIterations c S + done numIterations c (.running (.lock .mySpinlock i)) := by
    intro c
    rw [← hk]
    exact total_moved c k _ _
  refine ⟨?_, ?_⟩
  · have hone : total numIterations .atomic { S with
        threads := Function.update S.threads k ⟨.running (.lock .mySpinlock i), b⟩
        data := { S.data with atomicCnt := cInt (S.data.atomicCnt + 1) } } =
        total numIterations .atomic S + 1 := by
      have h1 := htotal .atomic
      have h2 : done numIterations .atomic (.running (.lock .mySpinlock i)) = i + 1 := rfl
      have h3 : done numIterations .atomic (.running (.atomicInc i)) = i := rfl
      omega
    rw [hone]
    show cInt (S.data.atomicCnt + 1) = _
    rw [h.atomicCnt, cInt_add_one]
    rfl
  · intro m
    have h1 := htotal (.locked m)
    have h2 : done numIterations (.locked m) (.running (.lock .mySpinlock i)) =
        done numIterations (.locked m) (.running (.atomicInc i)) := by
      cases m <;> rfl
    rw [h2] at h1
    rw [Nat.add_right_cancel h1]
    exact h.cnt m

/-- The counter of a lock is written. -/
theorem Counted.store (h : Counted numIterations S) {k : Fin n} {m : Lock} {i : Nat} {b : Bool}
    (hk : (S.threads k).place = .running (.store m i (S.data.cnt m))) :
    Counted numIterations { S with
      threads := Function.update S.threads k ⟨.running (.unlock m i), b⟩
      data := { S.data with cnt := Function.update S.data.cnt m (cInt (S.data.cnt m + 1)) } } := by
  have htotal : ∀ c, total numIterations c { S with
      threads := Function.update S.threads k ⟨.running (.unlock m i), b⟩
      data := { S.data with cnt := Function.update S.data.cnt m (cInt (S.data.cnt m + 1)) } } +
        done numIterations c (.running (.store m i (S.data.cnt m))) =
      total numIterations c S + done numIterations c (.running (.unlock m i)) := by
    intro c
    rw [← hk]
    exact total_moved c k _ _
  refine ⟨?_, ?_⟩
  · have h1 := htotal .atomic
    have h2 : done numIterations .atomic (.running (.unlock m i)) =
        done numIterations .atomic (.running (.store m i (S.data.cnt m))) := by
      cases m <;> rfl
    rw [h2] at h1
    rw [Nat.add_right_cancel h1]
    exact h.atomicCnt
  · intro m'
    by_cases hm : m' = m
    · subst hm
      have hone : total numIterations (.locked m') { S with
          threads := Function.update S.threads k ⟨.running (.unlock m' i), b⟩
          data := { S.data with cnt := Function.update S.data.cnt m' (cInt (S.data.cnt m' + 1)) } } =
          total numIterations (.locked m') S + 1 := by
        have h1 := htotal (.locked m')
        have h2 : done numIterations (.locked m') (.running (.unlock m' i)) = i + 1 := by
          cases m' <;> rfl
        have h3 : done numIterations (.locked m') (.running (.store m' i (S.data.cnt m'))) = i := by
          cases m' <;> rfl
        omega
      rw [hone]
      show Function.update S.data.cnt m' (cInt (S.data.cnt m' + 1)) m' = _
      rw [Function.update_self, h.cnt m', cInt_add_one]
      rfl
    · have h1 := htotal (.locked m')
      have h2 : done numIterations (.locked m') (.running (.unlock m i)) =
          done numIterations (.locked m') (.running (.store m i (S.data.cnt m))) := by
        cases m <;> cases m' <;> first | rfl | exact absurd rfl hm
      rw [h2] at h1
      rw [Nat.add_right_cancel h1]
      show Function.update S.data.cnt m _ m' = _
      rw [Function.update_of_ne hm]
      exact h.cnt m'

/-- A step between places outside the critical sections that increments no protected counter. -/
theorem Inv.outside (h : Inv numIterations S) {k : Fin n} {t : Thread Loc} {s : Data n}
    (ho : Order numIterations { S with threads := Function.update S.threads k t, data := s })
    (hout : ∀ m, inside m t.place = false) (howner : s.owner = S.data.owner)
    (hcnt : s.cnt = S.data.cnt)
    (hc : Counted numIterations { S with threads := Function.update S.threads k t, data := s }) :
    Inv numIterations { S with threads := Function.update S.threads k t, data := s } := by
  refine ⟨ho, h.locked.moved ?_ ?_ ?_, hc⟩
  · intro m j _ _
    exact ⟨congrFun howner m, congrFun hcnt m⟩
  · intro m hm
    rw [hout m] at hm
    cases hm
  · intro m j v hp
    have hm := hout m
    rw [hp] at hm
    exact absurd rfl (of_decide_eq_false hm)

/-- The lock is taken. -/
theorem Locked.lock (h : Locked S) {k : Fin n} {m : Lock} {i : Nat} {b : Bool}
    (ho : S.data.owner m = none) :
    Locked { S with
      threads := Function.update S.threads k ⟨.running (.load m i), b⟩
      data := { S.data with owner := Function.update S.data.owner m (some k) } } := by
  refine h.moved ?_ ?_ nofun
  · intro m' j _ hj
    refine ⟨?_, rfl⟩
    have hm : m' ≠ m := by
      rintro rfl
      have := (h.owner m' j hj).symm.trans ho
      cases this
    exact Function.update_of_ne hm _ _
  · intro m' hm
    rw [← of_decide_eq_true hm]
    exact Function.update_self _ _ _

/-- The counter is read. -/
theorem Locked.load (h : Locked S) {k : Fin n} {m : Lock} {i : Nat} {b : Bool}
    (hk : (S.threads k).place = .running (.load m i)) :
    Locked { S with
      threads := Function.update S.threads k ⟨.running (.store m i (S.data.cnt m)), b⟩ } := by
  refine h.moved (fun _ _ _ _ => ⟨rfl, rfl⟩) ?_ ?_
  · intro m' hm
    refine h.owner m' k ?_
    rw [hk]
    exact hm
  · intro m' j v hp
    cases hp
    rfl

/-- The counter is written. -/
theorem Locked.store (h : Locked S) {k : Fin n} {m : Lock} {i : Nat} {v v' : Int} {b : Bool}
    (hk : (S.threads k).place = .running (.store m i v)) :
    Locked { S with
      threads := Function.update S.threads k ⟨.running (.unlock m i), b⟩
      data := { S.data with cnt := Function.update S.data.cnt m v' } } := by
  have hkin : inside m (S.threads k).place = true := by
    rw [hk]
    exact decide_eq_true rfl
  refine h.moved ?_ ?_ nofun
  · intro m' j hjk hj
    refine ⟨rfl, ?_⟩
    have hm : m' ≠ m := by
      rintro rfl
      exact hjk (h.alone hj hkin)
    exact Function.update_of_ne hm _ _
  · intro m' hm
    rw [← of_decide_eq_true hm]
    exact h.owner m k hkin

theorem Locked.unlock (h : Locked S) {k : Fin n} {m : Lock} {i : Nat} {b : Bool}
    (hk : (S.threads k).place = .running (.unlock m i)) :
    Locked { S with
      threads := Function.update S.threads k ⟨.running (afterUnlock i m), b⟩
      data := { S.data with owner := Function.update S.data.owner m none } } := by
  have hkin : inside m (S.threads k).place = true := by
    rw [hk]
    exact decide_eq_true rfl
  refine h.moved ?_ ?_ ?_
  · intro m' j hjk hj
    refine ⟨?_, rfl⟩
    have hm : m' ≠ m := by
      rintro rfl
      exact hjk (h.alone hj hkin)
    exact Function.update_of_ne hm _ _
  · intro m' hm
    cases m <;> cases hm
  · intro m' j v hp
    cases m <;> cases hp

/-- A worker goes on to `l` in its function. -/
theorem Order.goes (h : Order numIterations S) {k : Fin n} {l₀ l : Loc} {b : Bool} {s : Data n}
    (ht : (S.threads k).place = .running l₀) (hl : l.Within numIterations) :
    Order numIterations { S with
      threads := Function.update S.threads k ⟨.running l, b⟩
      data := s } := by
  refine h.moved (.inr ⟨l₀, ht⟩) ?_
  intro l' hl'
  cases hl'
  exact hl

theorem Inv.forTest (h : Inv numIterations S) {k : Fin n} {i : Nat} {b : Bool}
    (ht : (S.threads k).place = .running (.forTest i)) :
    Inv numIterations { S with
      threads := Function.update S.threads k
        ⟨.next (if i < numIterations then some (.loadUnprotected i) else none), b⟩ } := by
  have hwithin : i ≤ numIterations := h.order.within k _ ht
  by_cases hi : i < numIterations
  · rw [if_pos hi]
    refine h.outside (h.order.goes ht hi) (fun _ => rfl) rfl rfl (h.counted.idle ?_ rfl rfl)
    intro c
    rw [ht]
    rfl
  · rw [if_neg hi]
    refine h.outside (h.order.moved (.inr ⟨_, ht⟩) nofun) (fun _ => rfl) rfl rfl
      (h.counted.idle ?_ rfl rfl)
    intro c
    have hlast : i = numIterations := Nat.le_antisymm hwithin (Nat.le_of_not_lt hi)
    rw [ht, ← hlast]
    rfl

/-- A step of `worker_fn`. -/
theorem Inv.body (h : Inv numIterations S) {k : Fin n} {l : Loc} {next : Option Loc} {b b' : Bool}
    {s : Data n} (ht : (S.threads k).place = .running l)
    (hb : workerFn numIterations k b' l S.data = some (next, s)) :
    Inv numIterations { S with threads := Function.update S.threads k ⟨.next next, b⟩, data := s } := by
  have hwithin := h.order.within k l ht
  cases l with
  | forTest i =>
    obtain ⟨rfl, rfl⟩ := Prod.mk.inj (Option.some.inj hb)
    exact h.forTest ht
  | loadUnprotected i =>
    cases hb
    refine h.outside (h.order.goes ht hwithin) (fun _ => rfl) rfl rfl (h.counted.idle ?_ rfl rfl)
    intro c
    rw [ht]
    rfl
  | storeUnprotected i v =>
    cases hb
    refine h.outside (h.order.goes ht hwithin) (fun _ => rfl) rfl rfl (h.counted.idle ?_ rfl rfl)
    intro c
    rw [ht]
    rfl
  | atomicInc i =>
    cases hb
    exact h.outside (h.order.goes ht hwithin) (fun _ => rfl) rfl rfl (h.counted.atomicInc ht)
  | lock m i =>
    replace hb : (if S.data.owner m = none then _ else none) = some (next, s) := hb
    split at hb
    · next ho =>
      cases hb
      refine ⟨h.order.goes ht hwithin, h.locked.lock ho, h.counted.idle ?_ rfl rfl⟩
      intro c
      rw [ht]
      cases m <;> rfl
    · cases hb
  | load m i =>
    cases hb
    refine ⟨h.order.goes ht hwithin, h.locked.load ht, h.counted.idle ?_ rfl rfl⟩
    intro c
    rw [ht]
    cases m <;> rfl
  | store m i v =>
    cases hb
    have hread := h.locked.read m k i v ht
    subst hread
    exact ⟨h.order.goes ht hwithin, h.locked.store ht, h.counted.store ht⟩
  | unlock m i =>
    cases hb
    have hnext : (afterUnlock i m).Within numIterations := by
      have hlt : i < numIterations := hwithin
      cases m with
      | mySpinlock => exact hlt
      | myMutex => exact hlt
    refine ⟨h.order.goes ht hnext, h.locked.unlock ht, h.counted.idle ?_ rfl rfl⟩
    intro c
    rw [ht]
    cases m <;> rfl

theorem Inv.worker (h : Inv numIterations S) {k : Fin n} {t : Thread Loc} {s : Data n}
    (hs : (S.threads k).step (.forTest 0) (workerFn numIterations k) S.data = some (t, s)) :
    Inv numIterations { S with threads := Function.update S.threads k t, data := s } := by
  cases Thread.step_moves hs with
  | skip ht hstop =>
    refine h.outside (h.order.moved (.inl ht) nofun) (fun _ => rfl) rfl rfl (h.counted.idle ?_ rfl rfl)
    intro c
    rw [ht]
    rfl
  | enter ht hstop =>
    refine h.outside (h.order.moved (.inl ht) ?_) (fun _ => rfl) rfl rfl (h.counted.idle ?_ rfl rfl)
    · intro l hl
      cases hl
      exact Nat.zero_le _
    · intro c
      rw [ht]
      rfl
  | body ht hb => exact h.body ht hb

/-! ## The init function -/

/-- `kthread_run` and `kthread_stop` change no place at which a thread has done anything. -/
theorem Inv.place_kept (h : Inv numIterations S) {k : Fin n} {t : Thread Loc} {x : InitLoc}
    (ho : Order numIterations { S with threads := Function.update S.threads k t, init := x })
    (hdone : ∀ c, done numIterations c t.place = done numIterations c (S.threads k).place)
    (hrun : ∀ l, t.place = .running l → (S.threads k).place = .running l) :
    Inv numIterations { S with threads := Function.update S.threads k t, init := x } := by
  have hl : Locked { S with threads := Function.update S.threads k t } := by
    refine h.locked.moved (fun _ _ _ _ => ⟨rfl, rfl⟩) ?_ ?_
    · intro m hm
      refine h.locked.owner m k ?_
      rcases hp : t.place with _ | _ | l | _ | _
      all_goals rw [hp] at hm
      case running =>
        rw [hrun l hp]
        exact hm
      all_goals cases hm
    · intro m j v hp
      exact h.locked.read m k j v (hrun _ hp)
  have hc : Counted numIterations { S with threads := Function.update S.threads k t } :=
    h.counted.idle hdone rfl rfl
  exact ⟨ho, ⟨hl.owner, hl.read⟩, ⟨hc.atomicCnt, hc.cnt⟩⟩

theorem Inv.init_moved (h : Inv numIterations S) {x : InitLoc}
    (ho : Order numIterations { S with init := x }) : Inv numIterations { S with init := x } :=
  ⟨ho, ⟨h.locked.owner, h.locked.read⟩, ⟨h.counted.atomicCnt, h.counted.cnt⟩⟩

theorem Inv.init (h : Inv numIterations S) (hs : syncDemoInit S = some S') :
    Inv numIterations S' := by
  unfold syncDemoInit at hs
  split at hs
  · next k hx =>
    split at hs
    · next hk =>
      cases hs
      have habsent := h.order.absent k hx ⟨k, hk⟩ le_rfl
      refine h.place_kept ⟨?_, ?_, ?_⟩ ?_ nofun
      · intro k' hk' i hi
        cases hk'
        have hne : i ≠ ⟨k, hk⟩ := by
          rintro rfl
          exact Nat.not_succ_le_self k hi
        show Function.update S.threads ⟨k, hk⟩ .created i = .absent
        rw [Function.update_of_ne hne]
        exact h.order.absent k hx i (Nat.le_of_succ_le hi)
      · intro i hi
        exact absurd hi (Nat.not_lt_zero _)
      · intro i l hi
        by_cases hik : i = ⟨k, hk⟩
        · subst hik
          have hcreated : (Thread.created : Thread Loc).place = .running l := by simpa using hi
          cases hcreated
        · exact h.order.within i l (by simpa [hik] using hi)
      · intro c
        rw [habsent]
        rfl
    · cases hs
      refine h.init_moved ⟨nofun, ?_, h.order.within⟩
      intro i hi
      exact absurd hi (Nat.not_lt_zero _)
  · next k hx =>
    have hended : ∀ i : Fin n, (i : Nat) < k → (S.threads i).Ended := by
      intro i hi
      exact h.order.ended i (by rw [hx]; exact hi)
    split at hs
    · next hk =>
      cases hs
      refine h.place_kept ⟨nofun, ended_update hended hk (S.threads ⟨k, hk⟩).stop, ?_⟩ (fun _ => rfl)
        (fun _ hl => hl)
      intro i l hi
      by_cases hik : i = ⟨k, hk⟩
      · subst hik
        exact h.order.within _ l (by simpa [Thread.stop] using hi)
      · exact h.order.within i l (by simpa [hik] using hi)
    · cases hs
      refine h.init_moved ⟨nofun, ?_, h.order.within⟩
      intro i _
      exact hended i (by omega)
  · next k hx =>
    split at hs
    · next hk =>
      split at hs
      · next hend =>
        cases hs
        have hended : ∀ i : Fin n, (i : Nat) < k → (S.threads i).Ended := by
          intro i hi
          exact h.order.ended i (by rw [hx]; exact hi)
        exact h.init_moved ⟨nofun, ended_succ hended hk hend, h.order.within⟩
      · cases hs
    · cases hs
  · cases hs

theorem Inv.step (h : Inv numIterations S) (hs : step numIterations S e = some (r, S')) :
    Inv numIterations S' := by
  cases e with
  | worker k =>
    obtain ⟨⟨t, s⟩, hp, heq⟩ := Option.map_eq_some_iff.mp hs
    obtain ⟨-, rfl⟩ := Prod.mk.inj heq
    exact h.worker hp
  | init =>
    obtain ⟨T, hp, heq⟩ := Option.map_eq_some_iff.mp hs
    obtain ⟨-, rfl⟩ := Prod.mk.inj heq
    exact h.init hp

/-! ## Threads that were stopped too early -/

/-- The thread was stopped before it first ran. -/
def StoppedEarly (t : Thread Loc) : Prop :=
  t.place = .skipped ∨ (t.place = .created ∧ t.shouldStop = true)

/-- A worker was stopped before it ran. -/
def Early (S : State n) : Prop := ∃ i, StoppedEarly (S.threads i)

theorem not_early_start : ¬ Early (start : State n) := by
  rintro ⟨i, h | h⟩
  · cases h
  · cases h.1

/-- A thread moves to a status that is early exactly if the old one was. -/
theorem early_update_iff {k : Fin n} {t : Thread Loc} {x : InitLoc} {s : Data n}
    (ht : StoppedEarly t ↔ StoppedEarly (S.threads k)) :
    Early ⟨Function.update S.threads k t, x, s⟩ ↔ Early S := by
  have hone : ∀ i, StoppedEarly (Function.update S.threads k t i) ↔ StoppedEarly (S.threads i) := by
    intro i
    by_cases hik : i = k
    · subst hik
      simpa using ht
    · simp [hik]
  exact exists_congr hone

/-- A step of a worker that runs does not make anybody early, nor the other way round. -/
theorem early_worker {k : Fin n} {t : Thread Loc} {s : Data n}
    (hs : (S.threads k).step (.forTest 0) (workerFn numIterations k) S.data = some (t, s)) :
    StoppedEarly t ↔ StoppedEarly (S.threads k) := by
  cases Thread.step_moves hs with
  | skip ht hstop => exact ⟨fun _ => .inr ⟨ht, hstop⟩, fun _ => .inl rfl⟩
  | enter ht hstop =>
    refine ⟨?_, ?_⟩
    · rintro (h | h)
      · cases h
      · cases h.1
    · rintro (h | h)
      · rw [ht] at h
        cases h
      · rw [hstop] at h
        cases h.2
  | @body l next s' ht hb =>
    refine ⟨?_, ?_⟩
    · rintro (h | h)
      · cases next <;> cases h
      · cases next <;> cases h.1
    · rintro (h | h)
      · rw [ht] at h
        cases h
      · rw [ht] at h
        cases h.1

/-- `kthread_stop` of a thread that has not run makes it early. -/
theorem stoppedEarly_stop (t : Thread Loc) :
    StoppedEarly t.stop ↔ StoppedEarly t ∨ t.place = .created := by
  refine ⟨?_, ?_⟩
  · rintro (h | h)
    · exact .inl (.inl h)
    · exact .inr h.1
  · rintro ((h | h) | h)
    · exact .inl h
    · exact .inr ⟨h.1, rfl⟩
    · exact .inr ⟨h, rfl⟩

/-- A step makes somebody early exactly if it stops a thread that has not run. -/
theorem early_step (h : Inv numIterations S) (hs : step numIterations S e = some (r, S')) :
    Early S' ↔ Early S ∨ ¬ HasRun S e := by
  cases e with
  | worker k =>
    obtain ⟨⟨t, s⟩, hp, heq⟩ := Option.map_eq_some_iff.mp hs
    obtain ⟨-, rfl⟩ := Prod.mk.inj heq
    have hrun : HasRun S (.worker k) := nofun
    exact (early_update_iff (early_worker hp)).trans ⟨.inl, fun h => h.resolve_right (not_not.mpr hrun)⟩
  | init =>
    obtain ⟨T, hp, heq⟩ := Option.map_eq_some_iff.mp hs
    obtain ⟨-, rfl⟩ := Prod.mk.inj heq
    have hnostop : (∀ k, S.init ≠ .stop k) → HasRun S .init := fun hx _ k _ hk => absurd hk (hx k)
    unfold syncDemoInit at hp
    split at hp
    · next k hx =>
      have hrun := hnostop (by rw [hx]; nofun)
      split at hp
      · next hk =>
        cases hp
        have habsent := h.order.absent k hx ⟨k, hk⟩ le_rfl
        refine (early_update_iff ?_).trans ⟨.inl, fun h => h.resolve_right (not_not.mpr hrun)⟩
        rw [habsent]
        refine ⟨?_, ?_⟩
        · rintro (h | h)
          · cases h
          · cases h.2
        · rintro (h | h)
          · cases h
          · cases h.2
      · cases hp
        exact ⟨.inl, fun h => h.resolve_right (not_not.mpr hrun)⟩
    · next k hx =>
      split at hp
      · next hk =>
        cases hp
        by_cases hc : (S.threads ⟨k, hk⟩).place = .created
        · refine ⟨fun _ => .inr ?_, fun _ => ⟨⟨k, hk⟩, ?_⟩⟩
          · intro hrun
            exact hrun rfl k hk hx hc
          · show StoppedEarly (Function.update S.threads ⟨k, hk⟩ _ ⟨k, hk⟩)
            rw [Function.update_self, stoppedEarly_stop]
            exact .inr hc
        · have hrun : HasRun S .init := by
            intro _ k' hk' hx'
            rw [hx] at hx'
            cases hx'
            exact hc
          refine (early_update_iff ?_).trans ⟨.inl, fun h => h.resolve_right (not_not.mpr hrun)⟩
          rw [stoppedEarly_stop]
          exact ⟨fun h => h.resolve_right hc, .inl⟩
      · next hk =>
        cases hp
        have hrun : HasRun S .init := by
          intro _ k' hk' hx'
          rw [hx] at hx'
          cases hx'
          exact absurd hk' hk
        exact ⟨.inl, fun h => h.resolve_right (not_not.mpr hrun)⟩
    · next k hx =>
      have hrun := hnostop (by rw [hx]; nofun)
      split at hp
      · split at hp
        · cases hp
          exact ⟨.inl, fun h => h.resolve_right (not_not.mpr hrun)⟩
        · cases hp
      · cases hp
    · cases hp

/-! ## The results -/

/-- A worker that has ended has counted all its iterations or, if it was skipped, none. -/
theorem done_of_ended {t : Thread Loc} (h : t.Ended) (c : Counter) :
    (StoppedEarly t ∧ done numIterations c t.place = 0) ∨
      (¬ StoppedEarly t ∧ done numIterations c t.place = numIterations) := by
  rcases h with h | h
  · refine .inl ⟨.inl h, ?_⟩
    rw [h]
    rfl
  · refine .inr ⟨?_, ?_⟩
    · rintro (h' | h')
      · rw [h] at h'
        cases h'
      · rw [h] at h'
        cases h'.1
    · rw [h]
      rfl

/-- When all workers have ended, a counter has counted everything unless a worker was skipped. -/
theorem total_eq_iff (hend : ∀ i, (S.threads i).Ended) (c : Counter) :
    total numIterations c S ≤ numIterations * n ∧
      (total numIterations c S = numIterations * n ↔ numIterations = 0 ∨ ¬ Early S) := by
  have hsum : numIterations * n = ∑ _k : Fin n, numIterations := by simp [Nat.mul_comm]
  have hle : ∀ i ∈ Finset.univ, done numIterations c (S.threads i).place ≤ numIterations := by
    intro i _
    rcases @done_of_ended numIterations _ (hend i) c with ⟨-, hd⟩ | ⟨-, hd⟩
    · rw [hd]
      exact Nat.zero_le _
    · exact hd.le
  rw [hsum, total]
  refine ⟨Finset.sum_le_sum hle, ?_⟩
  rw [Finset.sum_eq_sum_iff_of_le hle]
  constructor
  · intro h
    by_cases hearly : Early S
    · obtain ⟨i, hi⟩ := hearly
      rcases @done_of_ended numIterations _ (hend i) c with ⟨-, hd⟩ | ⟨hnot, -⟩
      · exact .inl ((h i (Finset.mem_univ i)).symm.trans hd)
      · exact absurd hi hnot
    · exact .inr hearly
  · rintro h i -
    rcases @done_of_ended numIterations _ (hend i) c with ⟨hi, hd⟩ | ⟨-, hd⟩
    · rcases h with h | h
      · exact hd.trans h.symm
      · exact absurd ⟨i, hi⟩ h
    · exact hd

/-- A number that is not above `b` is `b` as an `int` only if it is `b`, and `b` fits. -/
theorem cInt_eq_iff {a b : Nat} (h : a ≤ b) : cInt a = b ↔ a = b ∧ b < 2 ^ 31 := by
  constructor
  · intro hab
    have hlt : cInt a < 2 ^ 31 := Int.bmod_lt (by decide)
    have hb : b < 2 ^ 31 := by omega
    rw [cInt_of_lt (Int.natCast_nonneg a) (by omega)] at hab
    exact ⟨Int.natCast_inj.mp hab, hb⟩
  · rintro ⟨rfl, hb⟩
    exact cInt_of_lt (Int.natCast_nonneg a) (by omega)

theorem Inv.exact_iff (h : Inv numIterations S) (hx : S.init = .results) :
    Exact numIterations S ↔ (numIterations = 0 ∨ ¬ Early S) ∧ numIterations * n < 2 ^ 31 := by
  have hend : ∀ i, (S.threads i).Ended := fun i => h.order.ended i (by rw [hx]; exact i.isLt)
  have hcounter : ∀ c, cInt (total numIterations c S) = (numIterations * n : Nat) ↔
      (numIterations = 0 ∨ ¬ Early S) ∧ numIterations * n < 2 ^ 31 := by
    intro c
    obtain ⟨hle, heq⟩ := @total_eq_iff numIterations n S hend c
    rw [cInt_eq_iff hle, heq]
  constructor
  · intro he
    refine (hcounter .atomic).mp ?_
    rw [← h.counted.atomicCnt, he.atomicCnt, Nat.cast_mul]
  · intro hc
    refine ⟨?_, fun m => ?_⟩
    · rw [h.counted.atomicCnt, (hcounter .atomic).mpr hc, Nat.cast_mul]
    · rw [h.counted.cnt m, (hcounter (.locked m)).mpr hc, Nat.cast_mul]

/-- When the results are read, the three protected counters are exact precisely if the number that they
should show is an `int`, and there is nothing to count or no worker was stopped before it first ran. -/
theorem counters_exact_iff (numIterations n : Nat) (es : List (Event n)) (rs : List Unit) (S : State n)
    (hrun : Machine.exec (step numIterations) start es = some (rs, S)) (hx : S.init = .results) :
    Exact numIterations S ↔
      (numIterations = 0 ∨ Machine.Legal (step numIterations) HasRun start es) ∧
        numIterations * n < 2 ^ 31 := by
  have hinv : Inv numIterations S := (Machine.Reach.exec es .init hrun).invariant inv_start
    fun _ _ _ _ hS _ hs => Inv.step hS hs
  have hflag : Early S ↔ Early (start : State n) ∨
      ¬ Machine.Legal (step numIterations) HasRun start es :=
    Machine.legal_iff_of_flag (fun _ _ _ _ hS hs => Inv.step hS hs)
      (fun _ _ _ _ hS hs => early_step hS hs) inv_start hrun
  rw [hinv.exact_iff hx, hflag, not_or, not_not]
  exact and_congr_left fun _ => or_congr_right ⟨fun h => h.2, fun h => ⟨not_early_start, h⟩⟩

/-- Two workers run side by side for one iteration, and are stopped when they have ended. -/
def sideBySide : List (Event 2) :=
  let first : Event 2 := .worker ⟨0, Nat.two_pos⟩
  let second : Event 2 := .worker ⟨1, Nat.one_lt_two⟩
  [.init, .init] ++ List.replicate 4 first ++ (List.replicate 10 [first, second]).flatten ++
    List.replicate 4 second ++ List.replicate 6 .init

theorem counters_exact_iff_sideBySide :
    ∃ rs S, Machine.exec (step 1) (start : State 2) sideBySide = some (rs, S) ∧
      S.init = .results ∧ Exact 1 S ∧ Machine.Legal (step 1) HasRun (start : State 2) sideBySide := by
  have hend : (Machine.exec (step 1) (start : State 2) sideBySide).map
      (fun p => (p.2.init, p.2.data.atomicCnt, p.2.data.cnt .mySpinlock, p.2.data.cnt .myMutex)) =
        some (.results, 2, 2, 2) := by decide
  obtain ⟨⟨rs, S⟩, hexec, heq⟩ := Option.map_eq_some_iff.mp hend
  obtain ⟨hx, heq⟩ := Prod.mk.inj heq
  obtain ⟨hatomic, heq⟩ := Prod.mk.inj heq
  obtain ⟨hspin, hmutex⟩ := Prod.mk.inj heq
  have hexact : Exact 1 S := ⟨hatomic, fun m => by cases m; exacts [hspin, hmutex]⟩
  obtain ⟨hlegal, -⟩ := (counters_exact_iff 1 2 sideBySide rs S hexec hx).mp hexact
  exact ⟨rs, S, hexec, hx, hexact, hlegal.resolve_left Nat.one_ne_zero⟩

/-- Both workers are stopped before they have run. -/
def stoppedAtOnce : List (Event 2) :=
  [.init, .init, .init, .init, .worker ⟨0, Nat.two_pos⟩, .init, .init, .worker ⟨1, Nat.one_lt_two⟩,
    .init, .init]

theorem counters_not_exact :
    (Machine.exec (step 100000) (start : State 2) stoppedAtOnce).map
        (fun p => (p.2.init, p.2.data.atomicCnt, p.2.data.cnt .mySpinlock, p.2.data.cnt .myMutex)) =
      some (.results, 0, 0, 0) ∧
      ∃ rs S, Machine.exec (step 100000) (start : State 2) stoppedAtOnce = some (rs, S) ∧
        S.init = .results ∧ ¬ Exact 100000 S := by
  refine ⟨rfl, _, _, rfl, rfl, ?_⟩
  intro h
  have hcnt := h.atomicCnt
  revert hcnt
  decide

end SyncDemo
