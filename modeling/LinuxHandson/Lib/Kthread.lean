import Mathlib.Data.Option.Basic
import Mathlib.Logic.Function.Basic

/-!
# Threads of the kernel

A thread runs its function step by step. `kthread_stop` asks it to stop and waits until it has ended;
a thread that has been asked to stop before it first runs never runs its function.
-/

namespace Kthread

variable {ℓ σ : Type}

/-- Where a thread is. -/
inductive Place (ℓ : Type) where
  /-- `kthread_run` has not been called for it. -/
  | absent
  /-- It has not run yet. -/
  | created
  /-- At `l` in its function. -/
  | running (l : ℓ)
  /-- It has ended without having run its function. -/
  | skipped
  /-- Its function has returned. -/
  | returned
deriving DecidableEq

/-- Where a thread is, and whether `kthread_stop` has been called for it. -/
structure Thread (ℓ : Type) where
  place : Place ℓ
  shouldStop : Bool
deriving DecidableEq

/-- Before `kthread_run`. -/
def Thread.absent : Thread ℓ := ⟨.absent, false⟩

/-- After `kthread_run`. -/
def Thread.created : Thread ℓ := ⟨.created, false⟩

/-- `kthread_stop` up to its wait. -/
def Thread.stop (t : Thread ℓ) : Thread ℓ := { t with shouldStop := true }

/-- What `kthread_stop` waits for. -/
def Thread.Ended (t : Thread ℓ) : Prop := t.place = .skipped ∨ t.place = .returned

instance [DecidableEq ℓ] (t : Thread ℓ) : Decidable t.Ended :=
  inferInstanceAs (Decidable (_ ∨ _))

/-- The thread has been created, and has not ended. -/
def Thread.Live (t : Thread ℓ) : Prop := t.place = .created ∨ ∃ l, t.place = .running l

/-- The place after a step of the function, which has returned if there is no next place. -/
def Place.next : Option ℓ → Place ℓ
  | none => .returned
  | some l => .running l

/-- One step of a thread whose function starts at `start` and takes the steps `body`, which may depend
on `kthread_should_stop`. -/
def Thread.step (start : ℓ) (body : Bool → ℓ → σ → Option (Option ℓ × σ)) (t : Thread ℓ) (s : σ) :
    Option (Thread ℓ × σ) :=
  match t.place with
  | .created => some ({ t with place := if t.shouldStop then .skipped else .running start }, s)
  | .running l => (body t.shouldStop l s).map fun p => ({ t with place := .next p.1 }, p.2)
  | _ => none

/-- What a step of a thread can be. -/
inductive Moves (start : ℓ) (body : Bool → ℓ → σ → Option (Option ℓ × σ)) (t : Thread ℓ) (s : σ) :
    Thread ℓ → σ → Prop where
  /-- The thread ends before it has run its function. -/
  | skip (ht : t.place = .created) (hstop : t.shouldStop = true) :
      Moves start body t s ⟨.skipped, t.shouldStop⟩ s
  /-- The thread enters its function. -/
  | enter (ht : t.place = .created) (hstop : t.shouldStop = false) :
      Moves start body t s ⟨.running start, t.shouldStop⟩ s
  /-- A step of the function. -/
  | body {l : ℓ} {next : Option ℓ} {s' : σ} (ht : t.place = .running l)
      (hb : body t.shouldStop l s = some (next, s')) :
      Moves start body t s ⟨.next next, t.shouldStop⟩ s'

theorem Thread.step_moves {start : ℓ} {body : Bool → ℓ → σ → Option (Option ℓ × σ)} {t t' : Thread ℓ}
    {s s' : σ} (h : t.step start body s = some (t', s')) : Moves start body t s t' s' := by
  unfold Thread.step at h
  split at h
  · next ht =>
    obtain ⟨rfl, rfl⟩ := Prod.mk.inj (Option.some.inj h)
    by_cases hstop : t.shouldStop = true
    · rw [if_pos hstop]
      exact .skip ht hstop
    · rw [if_neg hstop]
      exact .enter ht (Bool.eq_false_iff.mpr hstop)
  · next l ht =>
    obtain ⟨⟨next, s1⟩, hb, heq⟩ := Option.map_eq_some_iff.mp h
    obtain ⟨rfl, rfl⟩ := Prod.mk.inj heq
    exact .body ht hb
  · cases h

/-- A thread that has made a step has been created. -/
theorem Thread.step_ne_absent {start : ℓ} {body : Bool → ℓ → σ → Option (Option ℓ × σ)} {t t' : Thread ℓ}
    {s s' : σ} (h : t.step start body s = some (t', s')) : t'.place ≠ .absent := by
  cases Thread.step_moves h with
  | skip ht hstop => nofun
  | enter ht hstop => nofun
  | @body l next s' ht hb =>
    cases next with
    | none => nofun
    | some l' => nofun

/-- A thread that has ended makes no step. -/
theorem Thread.Ended.step_eq_none {start : ℓ} {body : Bool → ℓ → σ → Option (Option ℓ × σ)}
    {t : Thread ℓ} (ht : t.Ended) (s : σ) : t.step start body s = none := by
  unfold Thread.step
  rcases ht with ht | ht
  · rw [ht]
  · rw [ht]

theorem Thread.Live.not_ended {t : Thread ℓ} (ht : t.Live) : ¬ t.Ended := by
  rintro (hend | hend)
  all_goals
    rcases ht with ht | ⟨l, ht⟩
    all_goals
      rw [hend] at ht
      cases ht

theorem Thread.Live.ne_absent {t : Thread ℓ} (ht : t.Live) : t ≠ .absent := by
  rintro rfl
  rcases ht with ht | ⟨l, ht⟩
  · cases ht
  · cases ht

@[simp] theorem Thread.ended_stop (t : Thread ℓ) : t.stop.Ended ↔ t.Ended := Iff.rfl

section Join

variable {n k : Nat} {threads : Fin n → Thread ℓ}

/-- Threads that have ended stay so when the next one changes. -/
theorem ended_update (h : ∀ i : Fin n, (i : Nat) < k → (threads i).Ended) (hk : k < n) (t : Thread ℓ) :
    ∀ i : Fin n, (i : Nat) < k → (Function.update threads ⟨k, hk⟩ t i).Ended := by
  intro i hi
  have hne : i ≠ ⟨k, hk⟩ := by
    rintro rfl
    exact Nat.lt_irrefl k hi
  rw [Function.update_of_ne hne]
  exact h i hi

theorem ended_succ (h : ∀ i : Fin n, (i : Nat) < k → (threads i).Ended) (hk : k < n)
    (hend : (threads ⟨k, hk⟩).Ended) : ∀ i : Fin n, (i : Nat) < k + 1 → (threads i).Ended := by
  intro i hi
  by_cases hik : i = ⟨k, hk⟩
  · rw [hik]
    exact hend
  · have hne : (i : Nat) ≠ k := fun heq => hik (Fin.ext heq)
    exact h i (by omega)

end Join

end Kthread
