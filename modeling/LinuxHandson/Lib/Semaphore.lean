import LinuxHandson.Lib.Counting
import LinuxHandson.Lib.Machine
import Mathlib.Algebra.Order.BigOperators.Group.Finset
import Mathlib.Algebra.Order.Group.Int
import Mathlib.Data.Int.Basic

/-!
# Processes with semaphores

Processes that share data and counting semaphores, with one step for each `sem_wait`, each
`sem_post` and each access to the data. What a semaphore counts is conserved: the value of the
semaphore, what the processes hold of it at their places in the code, and what is left in the data
have a constant sum.
-/

namespace Semaphore

open CLib

variable {ι κ ℓ σ : Type}

/-- What a process does next. -/
inductive Act (κ ℓ σ : Type) where
  /-- `sem_wait` on `k`, after which the process is at `l`. -/
  | wait (k : κ) (l : ℓ)
  /-- `sem_post` on `k`, after which the process is at `l`. -/
  | post (k : κ) (l : ℓ)
  /-- Any other step, which has no result when it blocks or when its behaviour is undefined. -/
  | plain (f : σ → Option (ℓ × σ))
  /-- The process has ended. -/
  | exit

/-- The whole system. -/
structure State (ι κ ℓ σ : Type) where
  loc : ι → ℓ
  sem : κ → Nat
  data : σ

section Step

variable [DecidableEq ι] [DecidableEq κ]

/-- Process `i` makes its next step. -/
def step (code : ι → ℓ → Act κ ℓ σ) : Machine.Step (State ι κ ℓ σ) ι Unit := fun S i =>
  match code i (S.loc i) with
  | .wait k l =>
    if S.sem k = 0 then none
    else some ((), ⟨Function.update S.loc i l, Function.update S.sem k (S.sem k - 1), S.data⟩)
  | .post k l =>
    some ((), ⟨Function.update S.loc i l, Function.update S.sem k (S.sem k + 1), S.data⟩)
  | .plain f => (f S.data).map fun r => ((), ⟨Function.update S.loc i r.1, S.sem, r.2⟩)
  | .exit => none

/-- The steps of process `i`, one constructor for each kind. -/
inductive Move (code : ι → ℓ → Act κ ℓ σ) (S : State ι κ ℓ σ) (i : ι) : State ι κ ℓ σ → Prop where
  | wait {k : κ} {l : ℓ} (hc : code i (S.loc i) = .wait k l) (hk : S.sem k ≠ 0) :
      Move code S i ⟨Function.update S.loc i l, Function.update S.sem k (S.sem k - 1), S.data⟩
  | post {k : κ} {l : ℓ} (hc : code i (S.loc i) = .post k l) :
      Move code S i ⟨Function.update S.loc i l, Function.update S.sem k (S.sem k + 1), S.data⟩
  | plain {f : σ → Option (ℓ × σ)} {l : ℓ} {s : σ} (hc : code i (S.loc i) = .plain f)
      (hf : f S.data = some (l, s)) : Move code S i ⟨Function.update S.loc i l, S.sem, s⟩

variable {code : ι → ℓ → Act κ ℓ σ} {S S' : State ι κ ℓ σ} {i : ι}

theorem step_move {r : Unit} (h : step code S i = some (r, S')) : Move code S i S' := by
  unfold step at h
  split at h
  · next k l hc =>
    split at h
    · cases h
    · next hk =>
      cases h
      exact .wait hc hk
  · next k l hc =>
    cases h
    exact .post hc
  · next f hc =>
    obtain ⟨⟨l, s⟩, hf, heq⟩ := Option.map_eq_some_iff.mp h
    cases heq
    exact .plain hc hf
  · cases h

/-! ## When a process can go on -/

theorem can_wait {k : κ} {l : ℓ} (hc : code i (S.loc i) = .wait k l) (hk : S.sem k ≠ 0) :
    ∃ S', step code S i = some ((), S') := by
  unfold step
  rw [hc]
  exact ⟨_, if_neg hk⟩

theorem can_post {k : κ} {l : ℓ} (hc : code i (S.loc i) = .post k l) :
    ∃ S', step code S i = some ((), S') := by
  unfold step
  rw [hc]
  exact ⟨_, rfl⟩

theorem can_plain {f : σ → Option (ℓ × σ)} {r : ℓ × σ} (hc : code i (S.loc i) = .plain f)
    (hf : f S.data = some r) : ∃ S', step code S i = some ((), S') := by
  unfold step
  rw [hc]
  refine ⟨⟨Function.update S.loc i r.1, S.sem, r.2⟩, ?_⟩
  simp only [hf, Option.map_some]

end Step

/-! ## Conservation -/

/-- Code that takes one unit of the semaphore `k` with each `sem_wait` and gives one back with each
`sem_post`: at the place `l`, process `i` holds `credit i l` units, and all other steps only move
units between the processes and the data, which holds `r`. -/
structure Conserves (code : ι → ℓ → Act κ ℓ σ) [DecidableEq κ] (k : κ) (credit : ι → ℓ → Int)
    (r : σ → Int) : Prop where
  wait : ∀ {i l j l'}, code i l = .wait j l' → credit i l' = credit i l + if j = k then 1 else 0
  post : ∀ {i l j l'}, code i l = .post j l' → credit i l = credit i l' + if j = k then 1 else 0
  plain : ∀ {i l f s l' s'}, code i l = .plain f → f s = some (l', s') →
    credit i l' + r s' = credit i l + r s

section Conserves

variable [Fintype ι]

/-- All units of a semaphore. -/
def units (k : κ) (credit : ι → ℓ → Int) (r : σ → Int) (S : State ι κ ℓ σ) : Int :=
  S.sem k + ∑ i, credit i (S.loc i) + r S.data

variable [DecidableEq ι] [DecidableEq κ] {code : ι → ℓ → Act κ ℓ σ} {S S' : State ι κ ℓ σ} {k : κ}
  {credit : ι → ℓ → Int} {r : σ → Int}

theorem Conserves.step (h : Conserves code k credit r) {i : ι} {u : Unit}
    (hs : Semaphore.step code S i = some (u, S')) : units k credit r S' = units k credit r S := by
  unfold units
  cases step_move hs with
  | @wait j l hc hk =>
    have hsum := sum_update credit S.loc i l
    have hcredit := h.wait hc
    by_cases hj : j = k
    · subst hj
      rw [if_pos rfl] at hcredit
      simp only [Function.update_self]
      omega
    · rw [if_neg hj] at hcredit
      simp only [Function.update_of_ne (Ne.symm hj)]
      omega
  | @post j l hc =>
    have hsum := sum_update credit S.loc i l
    have hcredit := h.post hc
    by_cases hj : j = k
    · subst hj
      rw [if_pos rfl] at hcredit
      simp only [Function.update_self]
      omega
    · rw [if_neg hj] at hcredit
      simp only [Function.update_of_ne (Ne.symm hj)]
      omega
  | @plain f l s hc hf =>
    have hsum := sum_update credit S.loc i l
    have hcredit := h.plain hc hf
    simp only
    omega

/-- What a semaphore counts is the same in all reachable states. -/
theorem Conserves.reach (h : Conserves code k credit r) {S₀ : State ι κ ℓ σ}
    {guard : State ι κ ℓ σ → ι → Prop} (hr : Machine.Reach (Semaphore.step code) guard S₀ S) :
    units k credit r S = units k credit r S₀ := by
  induction hr with
  | init => rfl
  | next _ _ hs ih => exact (h.step hs).trans ih

end Conserves

end Semaphore
