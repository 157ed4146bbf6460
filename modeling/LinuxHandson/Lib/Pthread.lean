import LinuxHandson.Lib.Counting
import LinuxHandson.Lib.Machine
import Mathlib.Algebra.Order.BigOperators.Group.Finset

/-!
# Threads with mutexes and condition variables

Threads that share data under mutexes. What a mutex protects is touched by its owner only, so that a
critical section, from the moment the thread owns the mutex up to its unlock or wait, is one step.
Each critical section begins with its wait loop, so that a thread that comes back from
`pthread_cond_wait` goes on as if it had just locked the mutex. A signal wakes at least one waiter if
there is one; a waiter can also wake up without a signal.

Two facts follow from what single steps do: an invariant of the data and of the threads' places, and
that a resource for which threads wait on a condition is never left to threads that are all asleep.
-/

namespace Pthread

variable {ι μ γ χ ℓ σ : Type}

/-- The call that a critical section makes to wake others up. -/
inductive Notify (γ : Type) where
  | none
  | signal (c : γ)
  | broadcast (c : γ)
deriving DecidableEq

/-- How a critical section ends: in `pthread_cond_wait`, or with the unlock, after which the thread
is at `l` and the data is `s`. -/
inductive Exit (γ ℓ σ : Type) where
  | wait (c : γ)
  | unlock (l : ℓ) (s : σ) (n : Notify γ)

/-- What a thread does next. A step with no result is one that cannot be made now, or whose
behaviour is undefined. -/
inductive Act (μ γ χ ℓ σ : Type) where
  /-- A critical section under the mutex `m`. -/
  | lock (m : μ) (body : σ → Option (Exit γ ℓ σ))
  /-- A step outside critical sections, which may depend on a choice of the environment. -/
  | plain (f : χ → σ → Option (ℓ × σ))
  /-- The thread has ended. -/
  | stop

/-- A thread is awake outside critical sections (running, or blocked in `pthread_mutex_lock`), owns
the mutex of the critical section that it is at, or sleeps in `pthread_cond_wait` and has not been
woken. -/
inductive Status (γ ℓ : Type) where
  | awake (l : ℓ)
  | inside (l : ℓ)
  | asleep (c : γ) (l : ℓ)
deriving DecidableEq

/-- The place of a thread in its code. -/
def Status.loc : Status γ ℓ → ℓ
  | .awake l => l
  | .inside l => l
  | .asleep _ l => l

/-- The thread sleeps on the condition `c`. -/
def Status.On (c : γ) (t : Status γ ℓ) : Prop := ∃ l, t = .asleep c l

instance [DecidableEq γ] (c : γ) : (t : Status γ ℓ) → Decidable (t.On c)
  | .awake _ => isFalse (by rintro ⟨l, h⟩; cases h)
  | .inside _ => isFalse (by rintro ⟨l, h⟩; cases h)
  | .asleep d l => decidable_of_iff (d = c)
      ⟨fun h => ⟨l, h ▸ rfl⟩, fun ⟨_, h⟩ => (Status.asleep.inj h).1⟩

/-- The whole system. -/
structure State (ι μ γ ℓ σ : Type) where
  thread : ι → Status γ ℓ
  owner : μ → Option ι
  data : σ

/-- The places of all threads. -/
def State.loc (S : State ι μ γ ℓ σ) (i : ι) : ℓ := (S.thread i).loc

/-- All threads awake at their first places, and all mutexes free. -/
def State.start (l : ι → ℓ) (s : σ) : State ι μ γ ℓ σ where
  thread i := .awake (l i)
  owner _ := .none
  data := s

/-- Thread `i` makes its next step, in which the environment chooses `x` and `woken` are the threads
that the step wakes; or `i` wakes up without a signal. -/
inductive Event (ι χ : Type) where
  | go (i : ι) (x : χ) (woken : Finset ι)
  | spurious (i : ι)

/-- The threads that a call may wake. -/
def Notify.Wakes (S : State ι μ γ ℓ σ) (woken : Finset ι) : Notify γ → Prop
  | .none => woken = ∅
  | .signal c => (∀ i ∈ woken, (S.thread i).On c) ∧ ((∃ i, (S.thread i).On c) → woken.Nonempty)
  | .broadcast c => ∀ i, i ∈ woken ↔ (S.thread i).On c

instance [Fintype ι] [DecidableEq ι] [DecidableEq γ] (S : State ι μ γ ℓ σ) (woken : Finset ι) :
    (n : Notify γ) → Decidable (n.Wakes S woken)
  | .none => inferInstanceAs (Decidable (woken = ∅))
  | .signal c => inferInstanceAs (Decidable ((∀ i ∈ woken, (S.thread i).On c) ∧
      ((∃ i, (S.thread i).On c) → woken.Nonempty)))
  | .broadcast c => inferInstanceAs (Decidable (∀ i, i ∈ woken ↔ (S.thread i).On c))

section Moved

variable [DecidableEq ι]

/-- Thread `i` at a new status. -/
def State.moved (S : State ι μ γ ℓ σ) (i : ι) (t : Status γ ℓ) : State ι μ γ ℓ σ :=
  { S with thread := Function.update S.thread i t }

/-- The statuses after thread `i` has left its critical section for `l` and has woken some threads. -/
def wake (thread : ι → Status γ ℓ) (i : ι) (l : ℓ) (woken : Finset ι) (j : ι) : Status γ ℓ :=
  if j = i then .awake l else if j ∈ woken then .awake (thread j).loc else thread j

variable (S : State ι μ γ ℓ σ) (i : ι) (o : μ → Option ι) (s : σ)

theorem loc_update (t : Status γ ℓ) :
    (State.mk (Function.update S.thread i t) o s).loc = Function.update S.loc i t.loc := by
  funext j
  by_cases hj : j = i
  · subst hj
    simp [State.loc]
  · simp [State.loc, hj]

theorem loc_wake (l : ℓ) (woken : Finset ι) :
    (State.mk (wake S.thread i l woken) o s).loc = Function.update S.loc i l := by
  funext j
  by_cases hj : j = i
  · subst hj
    simp [State.loc, wake, Status.loc]
  · by_cases hw : j ∈ woken
    · simp [State.loc, wake, hj, hw, Status.loc]
    · simp [State.loc, wake, hj, hw]

end Moved

section Step

variable [DecidableEq ι] [DecidableEq μ]

/-- One step of the system. -/
def step [Fintype ι] [DecidableEq γ] (code : ι → ℓ → Act μ γ χ ℓ σ) :
    Machine.Step (State ι μ γ ℓ σ) (Event ι χ) Unit := fun S e =>
  match e with
  | .spurious i =>
    match S.thread i with
    | .asleep _ l => some ((), S.moved i (.awake l))
    | _ => none
  | .go i x woken =>
    match S.thread i with
    | .asleep _ _ => none
    | .awake l =>
      match code i l with
      | .lock m _ =>
        if S.owner m = none then
          some ((), { S.moved i (.inside l) with owner := Function.update S.owner m (some i) })
        else none
      | .plain f => (f x S.data).map fun r => ((), { S.moved i (.awake r.1) with data := r.2 })
      | .stop => none
    | .inside l =>
      match code i l with
      | .lock m body =>
        match body S.data with
        | none => none
        | some (.wait c) =>
          some ((), { S.moved i (.asleep c l) with owner := Function.update S.owner m none })
        | some (.unlock l' s' n) =>
          if n.Wakes S woken then
            some ((), ⟨wake S.thread i l' woken, Function.update S.owner m none, s'⟩)
          else none
      | _ => none

/-! ## What a step can be -/

/-- The steps of the system, one constructor for each kind. -/
inductive Move (code : ι → ℓ → Act μ γ χ ℓ σ) (S : State ι μ γ ℓ σ) :
    Event ι χ → State ι μ γ ℓ σ → Prop where
  /-- A wake-up without a signal. -/
  | wakeUp {i : ι} {c : γ} {l : ℓ} (hi : S.thread i = .asleep c l) :
      Move code S (.spurious i) (S.moved i (.awake l))
  /-- The lock of a free mutex. -/
  | acquire {i : ι} {x : χ} {woken : Finset ι} {l : ℓ} {m : μ} {body : σ → Option (Exit γ ℓ σ)}
      (hi : S.thread i = .awake l) (hc : code i l = .lock m body) (ho : S.owner m = none) :
      Move code S (.go i x woken)
        { S.moved i (.inside l) with owner := Function.update S.owner m (some i) }
  /-- A step outside critical sections. -/
  | plain {i : ι} {x : χ} {woken : Finset ι} {l l' : ℓ} {s' : σ} {f : χ → σ → Option (ℓ × σ)}
      (hi : S.thread i = .awake l) (hc : code i l = .plain f) (hf : f x S.data = some (l', s')) :
      Move code S (.go i x woken) { S.moved i (.awake l') with data := s' }
  /-- A critical section that ends in a wait. -/
  | wait {i : ι} {x : χ} {woken : Finset ι} {l : ℓ} {m : μ} {body : σ → Option (Exit γ ℓ σ)} {c : γ}
      (hi : S.thread i = .inside l) (hc : code i l = .lock m body)
      (hb : body S.data = some (.wait c)) :
      Move code S (.go i x woken)
        { S.moved i (.asleep c l) with owner := Function.update S.owner m none }
  /-- A critical section that ends with the unlock. -/
  | unlock {i : ι} {x : χ} {woken : Finset ι} {l l' : ℓ} {m : μ} {body : σ → Option (Exit γ ℓ σ)}
      {s' : σ} {n : Notify γ} (hi : S.thread i = .inside l) (hc : code i l = .lock m body)
      (hb : body S.data = some (.unlock l' s' n)) (hw : n.Wakes S woken) :
      Move code S (.go i x woken)
        ⟨wake S.thread i l' woken, Function.update S.owner m none, s'⟩

theorem step_move [Fintype ι] [DecidableEq γ] {code : ι → ℓ → Act μ γ χ ℓ σ}
    {S S' : State ι μ γ ℓ σ} {e : Event ι χ} {r : Unit}
    (h : step code S e = some (r, S')) : Move code S e S' := by
  cases e with
  | spurious i =>
    simp only [step] at h
    split at h
    · next c l hi =>
      obtain ⟨-, rfl⟩ := Prod.mk.inj (Option.some.inj h)
      exact .wakeUp hi
    · cases h
  | go i x woken =>
    simp only [step] at h
    split at h
    · cases h
    · next l hi =>
      split at h
      · next m body hc =>
        split at h
        · next ho =>
          obtain ⟨-, rfl⟩ := Prod.mk.inj (Option.some.inj h)
          exact .acquire hi hc ho
        · cases h
      · next f hc =>
        obtain ⟨⟨l', s'⟩, hf, heq⟩ := Option.map_eq_some_iff.mp h
        obtain ⟨-, rfl⟩ := Prod.mk.inj heq
        exact .plain hi hc hf
      · cases h
    · next l hi =>
      split at h
      · next m body hc =>
        split at h
        · cases h
        · next c hb =>
          obtain ⟨-, rfl⟩ := Prod.mk.inj (Option.some.inj h)
          exact .wait hi hc hb
        · next l' s' n hb =>
          split at h
          · next hw =>
            obtain ⟨-, rfl⟩ := Prod.mk.inj (Option.some.inj h)
            exact .unlock hi hc hb hw
          · cases h
      · cases h

/-- An invariant of the threads' places and the data: locking, waiting and waking up change
neither. -/
theorem Reach.loc_data [Fintype ι] [DecidableEq γ] {code : ι → ℓ → Act μ γ χ ℓ σ}
    {S : State ι μ γ ℓ σ} {guard : State ι μ γ ℓ σ → Event ι χ → Prop}
    {Inv : (ι → ℓ) → σ → Prop} {S₀ : State ι μ γ ℓ σ} (h0 : Inv S₀.loc S₀.data)
    (hplain : ∀ (S : State ι μ γ ℓ σ) i x woken f l' s', Inv S.loc S.data →
      guard S (.go i x woken) → code i (S.loc i) = .plain f → f x S.data = some (l', s') →
      Inv (Function.update S.loc i l') s')
    (hunlock : ∀ (S : State ι μ γ ℓ σ) i x woken m body l' s' n, Inv S.loc S.data →
      guard S (.go i x woken) → code i (S.loc i) = .lock m body →
      body S.data = some (.unlock l' s' n) → Inv (Function.update S.loc i l') s')
    (h : Machine.Reach (step code) guard S₀ S) : Inv S.loc S.data := by
  have hstep : ∀ S e r S', Inv (State.loc S) S.data → guard S e → step code S e = some (r, S') →
      Inv S'.loc S'.data := by
    intro S e r S' hS hg hs
    have hloc : ∀ {i : ι} {t : Status γ ℓ}, S.thread i = t → S.loc i = t.loc := fun h =>
      congrArg Status.loc h
    have hsame : ∀ {i : ι} {t : Status γ ℓ} (t' : Status γ ℓ) (o : μ → Option ι), S.thread i = t →
        t'.loc = t.loc → Inv (State.mk (Function.update S.thread i t') o S.data).loc S.data := by
      intro i t t' o hi ht
      rw [loc_update, ht, ← hloc hi, Function.update_eq_self]
      exact hS
    cases step_move hs with
    | @wakeUp i c l hi => exact hsame (.awake l) _ hi rfl
    | @acquire i x woken l m body hi hc ho => exact hsame (.inside l) _ hi rfl
    | @plain i x woken l l' s' f hi hc hf =>
      show Inv (State.mk (Function.update S.thread i (.awake l')) S.owner s').loc s'
      rw [loc_update]
      exact hplain S i x woken f l' s' hS hg (by rw [hloc hi]; exact hc) hf
    | @wait i x woken l m body c hi hc hb => exact hsame (.asleep c l) _ hi rfl
    | @unlock i x woken l l' m body s' n hi hc hb hw =>
      rw [loc_wake]
      exact hunlock S i x woken m body l' s' n hS hg (by rw [hloc hi]; exact hc) hb
  induction h with
  | init => exact h0
  | next _ hg hs ih => exact hstep _ _ _ _ ih hg hs

end Step

/-! ## Waiting for a resource -/

/-- What a step may do to the resource `r` for which threads wait on `c`. A thread that attends to
the resource looks at it again before it ends or waits for anything else. The step uses up one unit,
or leaves none; or it adds nothing and its thread does not stop attending; or it adds one unit and
signals, and is not a step of a thread that attends. -/
def Covers (c : γ) (r : σ → Nat) (attends attends' : Prop) (s s' : σ) (n : Notify γ) : Prop :=
  r s' ≤ r s - 1 ∨ (r s' ≤ r s ∧ (attends → attends')) ∨
    (r s' ≤ r s + 1 ∧ ¬ attends ∧ (n = .signal c ∨ n = .broadcast c))

/-- Code in which threads wait on `c` only while nothing is left of `r`, and in which each step
covers what it does to `r`. -/
structure Attended (code : ι → ℓ → Act μ γ χ ℓ σ) (c : γ) (Attends : ι → ℓ → Prop) (r : σ → Nat) :
    Prop where
  wait : ∀ {i l m body s d}, code i l = .lock m body → body s = some (.wait d) →
    (Attends i l ↔ d = c) ∧ (d = c → r s = 0)
  unlock : ∀ {i l m body s l' s' n}, code i l = .lock m body → body s = some (.unlock l' s' n) →
    Covers c r (Attends i l) (Attends i l') s s' n
  plain : ∀ {i l f x s l' s'}, code i l = .plain f → f x s = some (l', s') →
    Covers c r (Attends i l) (Attends i l') s s' .none

section Attention

variable [Fintype ι] {c : γ} {Attends : ι → ℓ → Prop} {r : σ → Nat}

open Classical in
/-- The threads that are awake and attend to the resource. -/
noncomputable def attending (Attends : ι → ℓ → Prop) (thread : ι → Status γ ℓ) : Finset ι :=
  Finset.univ.filter fun i => Attends i (thread i).loc ∧ ∀ c, ¬ (thread i).On c

theorem mem_attending {thread : ι → Status γ ℓ} {i : ι} :
    i ∈ attending Attends thread ↔ Attends i (thread i).loc ∧ ∀ c, ¬ (thread i).On c := by
  simp [attending]

/-- Sleepers of `c` attend, and while there is one, at most as many units of the resource are left
as threads are awake and attend. -/
def Attention (c : γ) (Attends : ι → ℓ → Prop) (r : σ → Nat) (S : State ι μ γ ℓ σ) : Prop :=
  ∀ i l, S.thread i = .asleep c l →
    Attends i l ∧ r S.data ≤ (attending Attends S.thread).card

variable [DecidableEq ι]

/-- A step that wakes nobody up: only thread `i` moves, to a status `t` that does not sleep on
`c`. -/
theorem Attention.moved {S : State ι μ γ ℓ σ} (hS : Attention c Attends r S) {i : ι}
    {t : Status γ ℓ} (ht : ¬ t.On c) (o : μ → Option ι) {s' : σ}
    (hr : r s' ≤ r S.data - 1 ∨ (r s' ≤ r S.data ∧
      (i ∈ attending Attends S.thread → Attends i t.loc ∧ ∀ d, ¬ t.On d))) :
    Attention c Attends r ⟨Function.update S.thread i t, o, s'⟩ := by
  intro j l hj
  have hji : j ≠ i := by
    rintro rfl
    exact ht ⟨l, by simpa using hj⟩
  obtain ⟨hA, hle⟩ := hS j l (by simpa [hji] using hj)
  refine ⟨hA, ?_⟩
  have hother : ∀ k ≠ i, k ∈ attending Attends S.thread →
      k ∈ attending Attends (Function.update S.thread i t) := by
    intro k hk hkA
    rw [mem_attending] at hkA ⊢
    simpa [hk] using hkA
  rcases hr with hr | ⟨hr, hi⟩
  · have hsub : (attending Attends S.thread).erase i ⊆
        attending Attends (Function.update S.thread i t) := fun k hk =>
      hother k (Finset.ne_of_mem_erase hk) (Finset.mem_of_mem_erase hk)
    have h1 := Finset.card_le_card hsub
    have h2 := Finset.pred_card_le_card_erase (s := attending Attends S.thread) (a := i)
    show r s' ≤ (attending Attends (Function.update S.thread i t)).card
    omega
  · have hsub : attending Attends S.thread ⊆ attending Attends (Function.update S.thread i t) := by
      intro k hk
      by_cases hki : k = i
      · subst hki
        rw [mem_attending]
        simpa using hi hk
      · exact hother k hki hk
    exact hr.trans (hle.trans (Finset.card_le_card hsub))

/-- A thread that wakes up still attends to what it waited for, and so do all others. -/
theorem attending_wake {S : State ι μ γ ℓ σ} {i k : ι} {l : ℓ} {woken : Finset ι} (hk : k ≠ i)
    (hkA : Attends k (S.thread k).loc) (h : (∀ d, ¬ (S.thread k).On d) ∨ k ∈ woken) :
    k ∈ attending Attends (wake S.thread i l woken) := by
  rw [mem_attending]
  by_cases hw : k ∈ woken
  · simp only [wake, hk, hw, if_true, if_false]
    exact ⟨hkA, fun d ⟨_, hd⟩ => by cases hd⟩
  · simp only [wake, hk, hw, if_false]
    exact ⟨hkA, h.resolve_right hw⟩

/-- An unlock after which the threads in `woken` are awake. -/
theorem Attention.unlocked {S : State ι μ γ ℓ σ} (hS : Attention c Attends r S) {i : ι} {l l' : ℓ}
    {woken : Finset ι} {n : Notify γ} (hi : S.thread i = .inside l) (hw : n.Wakes S woken)
    (o : μ → Option ι) {s' : σ}
    (hr : Covers c r (Attends i l) (Attends i l') S.data s' n) :
    Attention c Attends r ⟨wake S.thread i l' woken, o, s'⟩ := by
  intro j lj hj
  have hj' : j ≠ i ∧ j ∉ woken ∧ S.thread j = .asleep c lj := by
    simp only [wake] at hj
    split at hj
    · cases hj
    · split at hj
      · cases hj
      · exact ⟨by assumption, by assumption, hj⟩
  obtain ⟨hji, hjw, hj⟩ := hj'
  obtain ⟨hA, hle⟩ := hS j lj hj
  refine ⟨hA, ?_⟩
  have hother : ∀ k ≠ i, k ∈ attending Attends S.thread →
      k ∈ attending Attends (wake S.thread i l' woken) := fun k hk hkA =>
    attending_wake hk (mem_attending.mp hkA).1 (.inl (mem_attending.mp hkA).2)
  have hself : Attends i l' → i ∈ attending Attends (wake S.thread i l' woken) := by
    intro hi'
    rw [mem_attending]
    simp only [wake, if_true]
    exact ⟨hi', fun d ⟨_, hd⟩ => by cases hd⟩
  have hmem : i ∈ attending Attends S.thread ↔ Attends i l := by
    rw [mem_attending, hi]
    exact ⟨fun h => h.1, fun h => ⟨h, fun d ⟨_, hd⟩ => by cases hd⟩⟩
  rcases hr with hr | ⟨hr, hkeep⟩ | ⟨hr, hno, hn⟩
  · have hsub : (attending Attends S.thread).erase i ⊆
        attending Attends (wake S.thread i l' woken) := fun k hk =>
      hother k (Finset.ne_of_mem_erase hk) (Finset.mem_of_mem_erase hk)
    have h1 := Finset.card_le_card hsub
    have h2 := Finset.pred_card_le_card_erase (s := attending Attends S.thread) (a := i)
    show r s' ≤ (attending Attends (wake S.thread i l' woken)).card
    omega
  · have hsub : attending Attends S.thread ⊆ attending Attends (wake S.thread i l' woken) := by
      intro k hk
      by_cases hki : k = i
      · subst hki
        exact hself (hkeep (hmem.mp hk))
      · exact hother k hki hk
    exact hr.trans (hle.trans (Finset.card_le_card hsub))
  · -- a sleeper is left, so that the call was a signal and has woken somebody
    have hsig : n = .signal c := by
      rcases hn with hn | hn
      · exact hn
      · subst hn
        exact absurd ((hw j).mpr ⟨lj, hj⟩) hjw
    subst hsig
    obtain ⟨w, hwm⟩ := hw.2 ⟨j, lj, hj⟩
    obtain ⟨lw, hwl⟩ := hw.1 w hwm
    have hwi : w ≠ i := by
      rintro rfl
      rw [hi] at hwl
      cases hwl
    have hwA : Attends w (S.thread w).loc := by
      rw [hwl]
      exact (hS w lw hwl).1
    have hwnot : w ∉ attending Attends S.thread := fun h =>
      (mem_attending.mp h).2 c ⟨lw, hwl⟩
    have hsub : insert w (attending Attends S.thread) ⊆
        attending Attends (wake S.thread i l' woken) := by
      intro k hk
      rcases Finset.mem_insert.mp hk with rfl | hk
      · exact attending_wake hwi hwA (.inr hwm)
      · refine hother k ?_ hk
        rintro rfl
        exact hno (hmem.mp hk)
    have h1 := Finset.card_le_card hsub
    rw [Finset.card_insert_of_notMem hwnot] at h1
    show r s' ≤ (attending Attends (wake S.thread i l' woken)).card
    omega

variable [DecidableEq μ] [DecidableEq γ] {code : ι → ℓ → Act μ γ χ ℓ σ} {S S' : State ι μ γ ℓ σ}

theorem Attended.step (h : Attended code c Attends r) {e : Event ι χ} {u : Unit}
    (hS : Attention c Attends r S) (hs : Pthread.step code S e = some (u, S')) :
    Attention c Attends r S' := by
  cases step_move hs with
  | @wakeUp i d l hi =>
    refine hS.moved (t := .awake l) (fun ⟨_, h⟩ => by cases h) _ (.inr ⟨le_rfl, ?_⟩)
    intro hmem
    exact absurd ⟨l, hi⟩ ((mem_attending.mp hmem).2 d)
  | @acquire i x woken l m body hi hc ho =>
    refine hS.moved (t := .inside l) (fun ⟨_, h⟩ => by cases h) _ (.inr ⟨le_rfl, ?_⟩)
    intro hmem
    have h1 := (mem_attending.mp hmem).1
    rw [hi] at h1
    exact ⟨h1, fun d ⟨_, hd⟩ => by cases hd⟩
  | @plain i x woken l l' s' f hi hc hf =>
    refine hS.moved (t := .awake l') (fun ⟨_, h⟩ => by cases h) _ ?_
    rcases h.plain hc hf with hr | ⟨hr, hkeep⟩ | ⟨-, -, hn⟩
    · exact .inl hr
    · refine .inr ⟨hr, ?_⟩
      intro hmem
      have h1 := (mem_attending.mp hmem).1
      rw [hi] at h1
      exact ⟨hkeep h1, fun d ⟨_, hd⟩ => by cases hd⟩
    · rcases hn with hn | hn <;> cases hn
  | @wait i x woken l m body d hi hc hb =>
    obtain ⟨hA, hr⟩ := h.wait hc hb
    by_cases hd : d = c
    · subst hd
      intro j lj hj
      have hzero := hr rfl
      refine ⟨?_, by show r S.data ≤ _; omega⟩
      by_cases hji : j = i
      · subst hji
        have hl : Status.asleep d l = Status.asleep d lj := by simpa [State.moved] using hj
        cases hl
        exact hA.mpr rfl
      · exact (hS j lj (by simpa [State.moved, hji] using hj)).1
    · refine hS.moved (t := .asleep d l) ?_ _ (.inr ⟨le_rfl, ?_⟩)
      · rintro ⟨l', hl'⟩
        cases hl'
        exact hd rfl
      · intro hmem
        have h1 := (mem_attending.mp hmem).1
        rw [hi] at h1
        exact absurd (hA.mp h1) hd
  | @unlock i x woken l l' m body s' n hi hc hb hw =>
    exact hS.unlocked hi hw _ (h.unlock hc hb)

theorem Attended.reach (h : Attended code c Attends r)
    {guard : State ι μ γ ℓ σ → Event ι χ → Prop} {l₀ : ι → ℓ} {s₀ : σ}
    (hreach : Machine.Reach (Pthread.step code) guard (.start l₀ s₀) S) : Attention c Attends r S := by
  refine hreach.invariant ?_ ?_
  · intro i l hi
    cases hi
  · intro S e u S' hS _ hs
    exact h.step hS hs

/-- The resource is never left to sleepers: while one thread sleeps on `c` and something is left,
another is awake and attends. -/
theorem Attended.no_lost_wakeup (h : Attended code c Attends r)
    {guard : State ι μ γ ℓ σ → Event ι χ → Prop} {l₀ : ι → ℓ} {s₀ : σ}
    (hreach : Machine.Reach (Pthread.step code) guard (.start l₀ s₀) S) (hr : 0 < r S.data) {i : ι}
    (hi : (S.thread i).On c) : ∃ j, Attends j (S.loc j) ∧ ∀ d, ¬ (S.thread j).On d := by
  obtain ⟨l, hi⟩ := hi
  obtain ⟨-, hle⟩ := h.reach hreach i l hi
  obtain ⟨j, hj⟩ := Finset.card_pos.mp (hr.trans_le hle)
  exact ⟨j, mem_attending.mp hj⟩

end Attention

/-! ## Waiting for a flag -/

/-- Code in which threads wait on `c` only while `P` does not hold, and in which each step that
makes `P` hold broadcasts on `c`. -/
structure Announced (code : ι → ℓ → Act μ γ χ ℓ σ) (c : γ) (P : σ → Prop) : Prop where
  wait : ∀ {i l m body s}, code i l = .lock m body → body s = some (.wait c) → ¬ P s
  unlock : ∀ {i l m body s l' s' n}, code i l = .lock m body → body s = some (.unlock l' s' n) →
    P s' → P s ∨ n = .broadcast c
  plain : ∀ {i l f x s l' s'}, code i l = .plain f → f x s = some (l', s') → P s' → P s

section Announced

variable [Fintype ι] [DecidableEq ι] [DecidableEq μ] [DecidableEq γ]
  {code : ι → ℓ → Act μ γ χ ℓ σ} {S S' : State ι μ γ ℓ σ} {c : γ} {P : σ → Prop}

theorem Announced.step (h : Announced code c P) {e : Event ι χ} {u : Unit}
    (hS : P S.data → ∀ i, ¬ (S.thread i).On c) (hs : Pthread.step code S e = some (u, S')) :
    P S'.data → ∀ i, ¬ (S'.thread i).On c := by
  have hmoved : ∀ {i : ι} {t : Status γ ℓ}, ¬ t.On c → P S.data →
      ∀ j, ¬ (Function.update S.thread i t j).On c := by
    intro i t ht hP j
    by_cases hj : j = i
    · subst hj
      simpa using ht
    · simpa [hj] using hS hP j
  cases step_move hs with
  | wakeUp hi => exact hmoved fun ⟨_, h⟩ => by cases h
  | acquire hi hc ho => exact hmoved fun ⟨_, h⟩ => by cases h
  | plain hi hc hf => exact fun hP => hmoved (fun ⟨_, h⟩ => by cases h) (h.plain hc hf hP)
  | @wait i x woken l m body d hi hc hb =>
    intro hP
    refine hmoved ?_ hP
    rintro ⟨l', hl'⟩
    cases hl'
    exact h.wait hc hb hP
  | @unlock i x woken l l' m body s' n hi hc hb hw =>
    rintro hP j ⟨lj, hj⟩
    simp only [wake] at hj
    split at hj
    · cases hj
    · split at hj
      · cases hj
      · next hjw =>
        rcases h.unlock hc hb hP with hP | rfl
        · exact hS hP j ⟨lj, hj⟩
        · exact hjw ((hw j).mpr ⟨lj, hj⟩)

/-- Nobody sleeps on `c` once `P` holds. -/
theorem Announced.no_sleeper (h : Announced code c P)
    {guard : State ι μ γ ℓ σ → Event ι χ → Prop} {l₀ : ι → ℓ} {s₀ : σ}
    (hreach : Machine.Reach (Pthread.step code) guard (.start l₀ s₀) S) (hP : P S.data) (i : ι) :
    ¬ (S.thread i).On c := by
  have hinv : P S.data → ∀ i, ¬ (S.thread i).On c := by
    clear hP
    induction hreach with
    | init =>
      rintro - i ⟨l, hl⟩
      cases hl
    | next _ _ hs ih => exact h.step ih hs
  exact hinv hP i

end Announced

/-! ## Coming to an end -/

/-- The steps that a thread can make before it sleeps or leaves its place. -/
def Status.weight : Status γ ℓ → Nat
  | .awake _ => 2
  | .inside _ => 1
  | .asleep _ _ => 0

/-- The steps that an event makes possible: a thread that wakes up without a signal looks once more. -/
def Event.cost : Event ι χ → Nat
  | .go _ _ _ => 0
  | .spurious _ => 3

/-- Code in which every step that is not a wait makes `todo` smaller, where `Inv` holds. -/
structure Lowers (code : ι → ℓ → Act μ γ χ ℓ σ) [DecidableEq ι] (Inv : (ι → ℓ) → σ → Prop)
    (todo : (ι → ℓ) → σ → Nat) : Prop where
  plain : ∀ {L i f x s l' s'}, Inv L s → code i (L i) = .plain f → f x s = some (l', s') →
    todo (Function.update L i l') s' < todo L s
  unlock : ∀ {L i m body s l' s' n}, Inv L s → code i (L i) = .lock m body →
    body s = some (.unlock l' s' n) → todo (Function.update L i l') s' < todo L s

/-- Whoever owns a mutex is in a critical section under it, and each critical section is one. -/
structure Exclusive (code : ι → ℓ → Act μ γ χ ℓ σ) (S : State ι μ γ ℓ σ) : Prop where
  owner : ∀ {m i}, S.owner m = some i → ∃ l body, S.thread i = .inside l ∧ code i l = .lock m body
  inside : ∀ {i l}, S.thread i = .inside l → ∃ m body, code i l = .lock m body

/-- A thread that cannot make its next step. -/
inductive Blocked (code : ι → ℓ → Act μ γ χ ℓ σ) (S : State ι μ γ ℓ σ) (i : ι) : Prop where
  | asleep {c : γ} {l : ℓ} (h : S.thread i = .asleep c l)
  | stopped {l : ℓ} (h : S.thread i = .awake l) (hc : code i l = .stop)
  | plain {l : ℓ} {f : χ → σ → Option (ℓ × σ)} (h : S.thread i = .awake l) (hc : code i l = .plain f)
      (hf : ∀ x, f x S.data = none)

/-- Only sleepers are woken. -/
theorem Notify.Wakes.asleep {S : State ι μ γ ℓ σ} {woken : Finset ι} {n : Notify γ}
    (h : n.Wakes S woken) {i : ι} (hi : i ∈ woken) : ∃ c, (S.thread i).On c := by
  cases n with
  | none =>
    rw [show woken = ∅ from h] at hi
    exact absurd hi (Finset.notMem_empty i)
  | signal c => exact ⟨c, h.1 i hi⟩
  | broadcast c => exact ⟨c, (h i).mp hi⟩

open Classical in
/-- Every call has somebody to wake, if somebody sleeps on its condition. -/
theorem Notify.exists_wakes [Fintype ι] (n : Notify γ) (S : State ι μ γ ℓ σ) :
    ∃ woken, n.Wakes S woken := by
  cases n with
  | none => exact ⟨∅, rfl⟩
  | signal c =>
    refine ⟨Finset.univ.filter fun i => (S.thread i).On c, fun i hi => (Finset.mem_filter.mp hi).2, ?_⟩
    rintro ⟨i, hi⟩
    exact ⟨i, Finset.mem_filter.mpr ⟨Finset.mem_univ i, hi⟩⟩
  | broadcast c =>
    refine ⟨Finset.univ.filter fun i => (S.thread i).On c, fun i => ?_⟩
    rw [Finset.mem_filter, and_iff_right (Finset.mem_univ i)]

section Ending

variable [Fintype ι] [DecidableEq ι] [DecidableEq μ] [DecidableEq γ]
  {code : ι → ℓ → Act μ γ χ ℓ σ} {S S' : State ι μ γ ℓ σ}

/-- The measure that bounds the steps of a run: a thread can look twice at most for each time that
something is done. -/
def stepBound (todo : (ι → ℓ) → σ → Nat) (S : State ι μ γ ℓ σ) : Nat :=
  (2 * Fintype.card ι + 2) * todo S.loc S.data + ∑ i, (S.thread i).weight

omit [DecidableEq γ] in
theorem weight_wake_le (thread : ι → Status γ ℓ) (i : ι) (l : ℓ) (woken : Finset ι) :
    ∑ j, (wake thread i l woken j).weight ≤ ∑ j, (thread j).weight + 2 * Fintype.card ι := by
  have hle : ∀ t : Status γ ℓ, t.weight ≤ 2 := by
    intro t
    cases t with
    | awake l => exact Nat.le_refl 2
    | inside l => exact Nat.le_succ 1
    | asleep c l => exact Nat.zero_le 2
  have hsum : ∑ j, (wake thread i l woken j).weight ≤ ∑ j : ι, ((thread j).weight + 2) :=
    Finset.sum_le_sum fun j _ => (hle _).trans (Nat.le_add_left _ _)
  rw [Finset.sum_add_distrib, Finset.sum_const, Finset.card_univ, Nat.nsmul_eq_mul, Nat.mul_comm] at hsum
  exact hsum

theorem Lowers.step {Inv : (ι → ℓ) → σ → Prop} {todo : (ι → ℓ) → σ → Nat} (h : Lowers code Inv todo)
    (hinv : Inv S.loc S.data) {e : Event ι χ} {u : Unit} (hs : Pthread.step code S e = some (u, S')) :
    stepBound todo S' + 1 ≤ stepBound todo S + e.cost := by
  have hloc : ∀ {i : ι} {t : Status γ ℓ}, S.thread i = t → S.loc i = t.loc := fun h =>
    congrArg Status.loc h
  have hsum : ∀ (i : ι) (t : Status γ ℓ), ∑ j, (Function.update S.thread i t j).weight +
      (S.thread i).weight = ∑ j, (S.thread j).weight + t.weight := fun i t =>
    CLib.sum_update (fun _ t => t.weight) S.thread i t
  -- a step that leaves the places and the data as they are
  have hsame : ∀ {i : ι} (t : Status γ ℓ) (o : μ → Option ι), t.loc = (S.thread i).loc →
      stepBound todo ⟨Function.update S.thread i t, o, S.data⟩ + (S.thread i).weight =
        stepBound todo S + t.weight := by
    intro i t o ht
    have hupd : (State.mk (Function.update S.thread i t) o S.data).loc = S.loc := by
      rw [loc_update, ht]
      exact Function.update_eq_self i S.loc
    have := hsum i t
    show (2 * Fintype.card ι + 2) * todo (State.mk (Function.update S.thread i t) o S.data).loc S.data +
      ∑ j, (Function.update S.thread i t j).weight + (S.thread i).weight = _
    rw [hupd, stepBound]
    omega
  -- a step that gets something done
  have hless : ∀ {a b w w' : Nat}, a < b → w' ≤ w + 2 * Fintype.card ι →
      (2 * Fintype.card ι + 2) * a + w' + 1 ≤ (2 * Fintype.card ι + 2) * b + w := by
    intro a b w w' hab hw
    have hmul : (2 * Fintype.card ι + 2) * (a + 1) ≤ (2 * Fintype.card ι + 2) * b :=
      Nat.mul_le_mul_left _ hab
    rw [Nat.mul_add, Nat.mul_one] at hmul
    omega
  cases step_move hs with
  | @wakeUp i c l hi =>
    have := hsame (.awake l) S.owner (by rw [hi]; rfl)
    rw [hi] at this
    exact Nat.le_of_eq (congrArg (· + 1) this)
  | @acquire i x woken l m body hi hc ho =>
    have := hsame (.inside l) (Function.update S.owner m (some i)) (by rw [hi]; rfl)
    rw [hi] at this
    exact Nat.le_of_eq (Nat.succ.inj this)
  | @plain i x woken l l' s' f hi hc hf =>
    have hlow := h.plain hinv (by rw [hloc hi]; exact hc) hf
    have hw := hsum i (.awake l')
    rw [hi] at hw
    show (2 * Fintype.card ι + 2) * todo (State.mk (Function.update S.thread i (.awake l')) S.owner
      s').loc s' + ∑ j, (Function.update S.thread i (.awake l') j).weight + 1 ≤ stepBound todo S + 0
    rw [loc_update]
    exact hless hlow (by rw [Nat.add_right_cancel hw]; exact Nat.le_add_right _ _)
  | @wait i x woken l m body c hi hc hb =>
    have := hsame (.asleep c l) (Function.update S.owner m none) (by rw [hi]; rfl)
    rw [hi] at this
    exact Nat.le_of_eq this
  | @unlock i x woken l l' m body s' n hi hc hb hw =>
    have hlow := h.unlock hinv (by rw [hloc hi]; exact hc) hb
    show (2 * Fintype.card ι + 2) * todo (State.mk (wake S.thread i l' woken) _ s').loc s' +
      ∑ j, (wake S.thread i l' woken j).weight + 1 ≤ stepBound todo S + 0
    rw [loc_wake]
    exact hless hlow (weight_wake_le S.thread i l' woken)

/-- A run has at most as many steps as its first state measures, and three more for each wake-up without
a signal. -/
theorem Lowers.length_le {Inv : (ι → ℓ) → σ → Prop} {todo : (ι → ℓ) → σ → Nat}
    (h : Lowers code Inv todo) {guard : State ι μ γ ℓ σ → Event ι χ → Prop} {S₀ : State ι μ γ ℓ σ}
    (hinv : ∀ S, Machine.Reach (Pthread.step code) guard S₀ S → Inv S.loc S.data)
    {es : List (Event ι χ)} {rs : List Unit} (hl : Machine.Legal (Pthread.step code) guard S₀ es)
    (hexec : Machine.exec (Pthread.step code) S₀ es = some (rs, S)) :
    es.length ≤ stepBound todo S₀ + (es.map Event.cost).sum := by
  have hstep : ∀ S e u S', Machine.Reach (Pthread.step code) guard S₀ S → guard S e →
      Pthread.step code S e = some (u, S') → Machine.Reach (Pthread.step code) guard S₀ S' ∧
        stepBound todo S' + 1 ≤ stepBound todo S + e.cost := by
    intro S e u S' hS hg hs
    exact ⟨hS.next hg hs, h.step (hinv S hS) hs⟩
  exact Machine.Legal.length_le hstep .init hl hexec

omit [Fintype ι] [DecidableEq ι] [DecidableEq μ] [DecidableEq γ] in
/-- A step after which no thread is in a critical section that was not, and nobody owns a mutex that
did not. -/
theorem Exclusive.leave (h : Exclusive code S) {thread : ι → Status γ ℓ} {owner : μ → Option ι} {s : σ}
    (hthread : ∀ {j l}, thread j = .inside l → S.thread j = .inside l)
    (howner : ∀ {m j}, owner m = some j → S.owner m = some j ∧ thread j = S.thread j) :
    Exclusive code ⟨thread, owner, s⟩ where
  owner := by
    intro m j ho
    obtain ⟨ho', hj⟩ := howner ho
    obtain ⟨l, body, hl, hc⟩ := h.owner ho'
    exact ⟨l, body, hj.trans hl, hc⟩
  inside hj := h.inside (hthread hj)

omit [Fintype ι] [DecidableEq γ] in
theorem inside_of_update {thread : ι → Status γ ℓ} {i j : ι} {t : Status γ ℓ} {l : ℓ}
    (ht : ∀ k, t ≠ .inside k) (hj : Function.update thread i t j = .inside l) :
    thread j = .inside l := by
  have hji : j ≠ i := by
    rintro rfl
    rw [Function.update_self] at hj
    exact ht l hj
  rwa [Function.update_of_ne hji] at hj

theorem Exclusive.step (h : Exclusive code S) {e : Event ι χ} {u : Unit}
    (hs : Pthread.step code S e = some (u, S')) : Exclusive code S' := by
  -- a thread that is not in a critical section owns nothing
  have hout : ∀ {i j : ι} {m : μ}, (∀ l, S.thread i ≠ .inside l) → S.owner m = some j → j ≠ i := by
    rintro i j m hi ho rfl
    obtain ⟨l, -, hin, -⟩ := h.owner ho
    exact hi l hin
  -- and a thread that leaves one owned its mutex only
  have hleft : ∀ {i j : ι} {l : ℓ} {m m' : μ} {body : σ → Option (Exit γ ℓ σ)},
      S.thread i = .inside l → code i l = .lock m body →
      Function.update S.owner m none m' = some j → S.owner m' = some j ∧ j ≠ i := by
    intro i j l m m' body hi hc ho
    have hm : m' ≠ m := by
      rintro rfl
      rw [Function.update_self] at ho
      cases ho
    rw [Function.update_of_ne hm] at ho
    refine ⟨ho, ?_⟩
    rintro rfl
    obtain ⟨l', body', hl', hc'⟩ := h.owner ho
    rw [hi] at hl'
    cases hl'
    rw [hc] at hc'
    exact hm (Act.lock.inj hc').1.symm
  cases step_move hs with
  | @wakeUp i c l hi =>
    have hi' : ∀ k, S.thread i ≠ .inside k := fun k => by rw [hi]; rintro ⟨⟩
    exact h.leave (inside_of_update fun k => by rintro ⟨⟩)
      fun ho => ⟨ho, Function.update_of_ne (hout hi' ho) _ _⟩
  | @acquire i x woken l m body hi hc ho =>
    have hi' : ∀ k, S.thread i ≠ .inside k := fun k => by rw [hi]; rintro ⟨⟩
    refine ⟨fun {m' j} ho' => ?_, fun {j k} hj => ?_⟩
    · by_cases hm : m' = m
      · subst hm
        change Function.update S.owner m' (some i) m' = some j at ho'
        rw [Function.update_self] at ho'
        cases ho'
        exact ⟨l, body, Function.update_self _ _ _, hc⟩
      · have ho'' : S.owner m' = some j := (Function.update_of_ne hm _ _).symm.trans ho'
        obtain ⟨k, body', hk, hc'⟩ := h.owner ho''
        exact ⟨k, body', (Function.update_of_ne (hout hi' ho'') _ _).trans hk, hc'⟩
    · by_cases hji : j = i
      · subst hji
        change Function.update S.thread j (.inside l) j = .inside k at hj
        rw [Function.update_self] at hj
        cases hj
        exact ⟨m, body, hc⟩
      · exact h.inside ((Function.update_of_ne hji _ _).symm.trans hj)
  | @plain i x woken l l' s' f hi hc hf =>
    have hi' : ∀ k, S.thread i ≠ .inside k := fun k => by rw [hi]; rintro ⟨⟩
    exact h.leave (inside_of_update fun k => by rintro ⟨⟩)
      fun ho => ⟨ho, Function.update_of_ne (hout hi' ho) _ _⟩
  | @wait i x woken l m body c hi hc hb =>
    refine h.leave (inside_of_update fun k => by rintro ⟨⟩) fun ho => ?_
    obtain ⟨ho', hji⟩ := hleft hi hc ho
    exact ⟨ho', Function.update_of_ne hji _ _⟩
  | @unlock i x woken l l' m body s' n hi hc hb hw =>
    refine h.leave (fun {j k} hj => ?_) fun {m' j} ho => ?_
    · simp only [wake] at hj
      split at hj
      · cases hj
      · split at hj
        · cases hj
        · exact hj
    · obtain ⟨ho', hji⟩ := hleft hi hc ho
      obtain ⟨k, body', hk, -⟩ := h.owner ho'
      have hwj : j ∉ woken := by
        intro hmem
        obtain ⟨d, l'', hd⟩ := hw.asleep hmem
        rw [hk] at hd
        cases hd
      exact ⟨ho', by simp only [wake, if_neg hji, if_neg hwj]⟩

omit [Fintype ι] [DecidableEq ι] [DecidableEq μ] [DecidableEq γ] in
theorem exclusive_start (l : ι → ℓ) (s : σ) : Exclusive code (.start l s) where
  owner ho := by cases ho
  inside hj := by cases hj

theorem Exclusive.reach {guard : State ι μ γ ℓ σ → Event ι χ → Prop} {l₀ : ι → ℓ} {s₀ : σ}
    (h : Machine.Reach (Pthread.step code) guard (.start l₀ s₀) S) : Exclusive code S := by
  refine h.invariant (exclusive_start l₀ s₀) ?_
  intro S e u S' hS _ hs
  exact hS.step hs

/-- A thread in a critical section can go on to its end. -/
theorem go_inside (x : χ) {i : ι} {l : ℓ} {m : μ} {body : σ → Option (Exit γ ℓ σ)}
    (hi : S.thread i = .inside l) (hc : code i l = .lock m body) (hb : (body S.data).isSome) :
    ∃ woken, (Pthread.step code S (.go i x woken)).isSome := by
  obtain ⟨exit, hexit⟩ := Option.isSome_iff_exists.mp hb
  cases exit with
  | wait c => exact ⟨∅, by simp only [Pthread.step, hi, hc, hexit, Option.isSome_some]⟩
  | unlock l' s' n =>
    obtain ⟨woken, hw⟩ := n.exists_wakes S
    exact ⟨woken, by simp only [Pthread.step, hi, hc, hexit, if_pos hw, Option.isSome_some]⟩

/-- Where critical sections come to their ends, a thread is blocked, or it can go on, or one in a critical
section can. -/
theorem Exclusive.go_or_blocked (h : Exclusive code S) (x : χ)
    (hdef : ∀ {i l m body}, S.thread i = .inside l → code i l = .lock m body → (body S.data).isSome)
    (i : ι) : (∃ j x woken, (j = i ∨ ∃ l, S.thread j = .inside l) ∧
      (Pthread.step code S (.go j x woken)).isSome) ∨ Blocked code S i := by
  have hinside : ∀ {j l}, S.thread j = .inside l →
      ∃ j x woken, (j = i ∨ ∃ l, S.thread j = .inside l) ∧
        (Pthread.step code S (.go j x woken)).isSome := by
    intro j l hj
    obtain ⟨m, body, hc⟩ := h.inside hj
    obtain ⟨woken, hgo⟩ := go_inside x hj hc (hdef hj hc)
    exact ⟨j, x, woken, .inr ⟨l, hj⟩, hgo⟩
  cases hi : S.thread i with
  | asleep c l => exact .inr (.asleep hi)
  | inside l => exact .inl (hinside hi)
  | awake l =>
    cases hc : code i l with
    | stop => exact .inr (.stopped hi hc)
    | lock m body =>
      cases ho : S.owner m with
      | none =>
        exact .inl ⟨i, x, ∅, .inl rfl, by simp only [Pthread.step, hi, hc, if_pos ho, Option.isSome_some]⟩
      | some j =>
        obtain ⟨l', -, hl', -⟩ := h.owner ho
        exact .inl (hinside hl')
    | plain f =>
      by_cases hf : ∀ x, f x S.data = none
      · exact .inr (.plain hi hc hf)
      · obtain ⟨x', hx'⟩ := not_forall.mp hf
        obtain ⟨r, hr⟩ := Option.ne_none_iff_exists'.mp hx'
        exact .inl ⟨i, x', ∅, .inl rfl, by simp only [Pthread.step, hi, hc, hr, Option.map_some,
          Option.isSome_some]⟩

/-- A thread that has ended stays where it is. -/
theorem loc_of_stop {i : ι} (hc : code i (S.loc i) = .stop) {e : Event ι χ} {u : Unit}
    (hs : Pthread.step code S e = some (u, S')) : S'.loc i = S.loc i := by
  have hloc : ∀ {j : ι} {t : Status γ ℓ}, S.thread j = t → S.loc j = t.loc := fun h =>
    congrArg Status.loc h
  -- the thread that moves has not ended
  have hne : ∀ {j : ι} {l : ℓ}, S.loc j = l → code j l ≠ .stop → i ≠ j := by
    rintro j l hl hj rfl
    exact hj (hl ▸ hc)
  have hsame : ∀ {j : ι} {t t' : Status γ ℓ} (o : μ → Option ι) (s : σ), S.thread j = t →
      t'.loc = t.loc → (State.mk (Function.update S.thread j t') o s).loc i = S.loc i := by
    intro j t t' o s hj ht
    rw [loc_update, ht, ← hloc hj, Function.update_eq_self]
  cases step_move hs with
  | @wakeUp j c l hj => exact hsame _ _ hj rfl
  | @acquire j x woken l m body hj hcj ho => exact hsame _ _ hj rfl
  | @plain j x woken l l' s' f hj hcj hf =>
    show (State.mk (Function.update S.thread j (.awake l')) S.owner s').loc i = _
    rw [loc_update, Function.update_of_ne (hne (hloc hj) (by show code j l ≠ _; rw [hcj]; rintro ⟨⟩))]
  | @wait j x woken l m body c hj hcj hb => exact hsame _ _ hj rfl
  | @unlock j x woken l l' m body s' n hj hcj hb hw =>
    rw [loc_wake, Function.update_of_ne (hne (hloc hj) (by show code j l ≠ _; rw [hcj]; rintro ⟨⟩))]

/-- A thread in a critical section was in it, or has locked its mutex now. -/
theorem inside_of_step {i : ι} {l : ℓ} {e : Event ι χ} {u : Unit}
    (hs : Pthread.step code S e = some (u, S')) (hi : S'.thread i = .inside l) :
    S.thread i = .inside l ∨ ∃ x woken m body, e = .go i x woken ∧ S.thread i = .awake l ∧
      code i l = .lock m body := by
  cases step_move hs with
  | wakeUp hj => exact .inl (inside_of_update (fun k => by rintro ⟨⟩) hi)
  | @acquire j x woken k m body hj hcj ho =>
    by_cases hij : i = j
    · subst hij
      change Function.update S.thread i (.inside k) i = .inside l at hi
      rw [Function.update_self] at hi
      cases hi
      exact .inr ⟨x, woken, m, body, rfl, hj, hcj⟩
    · exact .inl ((Function.update_of_ne hij _ _).symm.trans hi)
  | plain hj hcj hf => exact .inl (inside_of_update (fun k => by rintro ⟨⟩) hi)
  | wait hj hcj hb => exact .inl (inside_of_update (fun k => by rintro ⟨⟩) hi)
  | @unlock j x woken k l' m body s' n hj hcj hb hw =>
    simp only [wake] at hi
    split at hi
    · cases hi
    · split at hi
      · cases hi
      · exact .inl hi

end Ending

/-! ## Runs in which one thread at a time goes on -/

section Alone

variable [Fintype ι] [DecidableEq ι] [DecidableEq μ] [DecidableEq γ]
  {code : ι → ℓ → Act μ γ χ ℓ σ} {guard : State ι μ γ ℓ σ → Event ι χ → Prop}
  {S₀ : State ι μ γ ℓ σ} {L : ι → ℓ} {i : ι} {s : σ}

/-- Thread `i` locks a mutex, with all threads awake and all mutexes free. -/
theorem acquire_start {m : μ} {body : σ → Option (Exit γ ℓ σ)} (x : χ)
    (hc : code i (L i) = .lock m body) :
    step code (.start L s) (.go i x ∅) = some ((),
      ⟨Function.update (fun j => .awake (L j)) i (.inside (L i)),
        Function.update (fun _ => none) m (some i), s⟩) := by
  simp only [step, State.start, hc, if_true]
  rfl

/-- A step outside critical sections, with all threads awake and all mutexes free. -/
theorem Reach.plain_start (h : Machine.Reach (step code) guard S₀ (.start L s)) (x : χ) {l : ℓ}
    {t : σ} (hg : ∀ S, guard S (.go i x ∅)) {f : χ → σ → Option (ℓ × σ)}
    (hc : code i (L i) = .plain f) (hf : f x s = some (l, t)) :
    Machine.Reach (step code) guard S₀ (.start (Function.update L i l) t) := by
  refine h.next (c := .go i x ∅) (r := ()) (hg _) ?_
  simp only [step, State.start, hc, hf, Option.map_some, State.moved]
  congr 3
  funext j
  by_cases hj : j = i
  · subst hj
    simp
  · simp [hj]

/-- A whole critical section, with all threads awake and all mutexes free before it. -/
theorem Reach.section_start (h : Machine.Reach (step code) guard S₀ (.start L s)) (x : χ) {l : ℓ}
    {t : σ} (hg : ∀ S, guard S (.go i x ∅)) {m : μ} {body : σ → Option (Exit γ ℓ σ)} {n : Notify γ}
    (hc : code i (L i) = .lock m body) (hb : body s = some (.unlock l t n)) :
    Machine.Reach (step code) guard S₀ (.start (Function.update L i l) t) := by
  have hin := h.next (hg _) (acquire_start x hc)
  -- there is nobody to wake
  have hnobody : ∀ (c : γ) j,
      ¬ (Function.update (fun j => Status.awake (L j)) i (.inside (L i)) j).On c := by
    rintro c j ⟨k, hk⟩
    by_cases hj : j = i
    · subst hj
      rw [Function.update_self] at hk
      cases hk
    · rw [Function.update_of_ne hj] at hk
      cases hk
  have hwakes : n.Wakes (⟨Function.update (fun j => .awake (L j)) i (.inside (L i)),
      Function.update (fun _ => none) m (some i), s⟩ : State ι μ γ ℓ σ) ∅ := by
    cases n with
    | none => rfl
    | signal c =>
      exact ⟨fun j hj => absurd hj (Finset.notMem_empty j), fun ⟨j, hj⟩ => absurd hj (hnobody c j)⟩
    | broadcast c => exact fun j => iff_of_false (Finset.notMem_empty j) (hnobody c j)
  refine hin.next (c := .go i x ∅) (r := ()) (hg _) ?_
  simp only [step, Function.update_self, hc, hb, if_pos hwakes, State.start]
  congr 3
  · funext j
    by_cases hj : j = i
    · subst hj
      simp [wake]
    · simp [wake, hj]
  · rw [Function.update_idem]
    exact Function.update_eq_self m _

end Alone

end Pthread
