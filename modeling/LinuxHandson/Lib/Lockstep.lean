import Mathlib.Data.List.Basic

/-!
# Two runs of one loop

A loop takes the elements of a list one by one, and counts its rounds. Where a round that starts with a
difference keeps it exactly if `P` holds, the results of two loops over lists that differ in one element
are different exactly if `P` holds in every round.
-/

namespace Lockstep

/-- Two lists of one length that differ in exactly one position. -/
def DifferOnce {α : Type} (l m : List α) : Prop := l.length = m.length ∧ ∃! k : Nat, l[k]? ≠ m[k]?

variable {σ α : Type} {a b : α} {l m : List α}

theorem differOnce_set {k : Nat} (h : l[k]? = some b) (hab : a ≠ b) : DifferOnce l (l.set k a) := by
  obtain ⟨hk, -⟩ := List.getElem?_eq_some_iff.mp h
  refine ⟨List.length_set.symm, k, ?_, fun j hj => ?_⟩
  · dsimp only
    rw [h, List.getElem?_set_self hk]
    exact fun he => hab (Option.some.inj he).symm
  · by_contra hne
    exact hj (List.getElem?_set_ne (Ne.symm hne)).symm

theorem DifferOnce.of_cons (h : DifferOnce (a :: l) (a :: m)) : DifferOnce l m := by
  obtain ⟨hlen, k, hk, hall⟩ := h
  cases k with
  | zero => exact absurd rfl hk
  | succ k =>
    refine ⟨Nat.succ.inj hlen, k, hk, fun j hj => ?_⟩
    exact Nat.succ.inj (hall (j + 1) hj)

theorem DifferOnce.tail_eq (h : DifferOnce (a :: l) (b :: m)) (hab : a ≠ b) : l = m := by
  obtain ⟨_, k, _, hall⟩ := h
  have h0 : 0 = k := hall 0 fun he => hab (Option.some.inj he)
  refine List.ext_getElem? fun j => ?_
  by_contra hj
  have hk : j + 1 = k := hall (j + 1) hj
  omega

/-- The lists are the same before the position, and after it. -/
theorem DifferOnce.cases {l m : List α} (h : DifferOnce l m) :
    ∃ pre a b post, a ≠ b ∧ l = pre ++ a :: post ∧ m = pre ++ b :: post := by
  classical
  induction l generalizing m with
  | nil =>
    obtain ⟨hlen, k, hk, _⟩ := h
    rw [List.length_eq_zero_iff.mp hlen.symm] at hk
    exact absurd rfl hk
  | cons a l ih =>
    cases m with
    | nil => exact absurd h.1 (Nat.succ_ne_zero _)
    | cons b m =>
      by_cases hab : a = b
      · subst hab
        obtain ⟨pre, x, y, post, hxy, rfl, rfl⟩ := ih h.of_cons
        exact ⟨a :: pre, x, y, post, hxy, rfl, rfl⟩
      · rw [h.tail_eq hab]
        exact ⟨[], a, b, m, hab, rfl, rfl⟩

/-- The state after the elements of a list, from round `i`. -/
def run (step : Nat → σ → α → σ) : Nat → σ → List α → σ
  | _, s, [] => s
  | i, s, a :: l => run step (i + 1) (step i s a) l

/-- In every round of two loops `P` holds of their states before it and the elements they take. -/
def Always (step : Nat → σ → α → σ) (P : σ → α → σ → α → Prop) :
    Nat → σ → σ → List α → List α → Prop
  | i, s, t, a :: l, b :: m => P s a t b ∧ Always step P (i + 1) (step i s a) (step i t b) l m
  | _, _, _, _, _ => True

/-- A round that starts with a difference, of the states or of the elements, keeps it exactly if `P`
holds. -/
structure Keeps (step : Nat → σ → α → σ) (P : σ → α → σ → α → Prop) : Prop where
  same : ∀ s a, P s a s a
  state : ∀ i s t a, s ≠ t → (step i s a ≠ step i t a ↔ P s a t a)
  elem : ∀ i s a b, a ≠ b → (step i s a ≠ step i s b ↔ P s a s b)

variable {step : Nat → σ → α → σ} {P : σ → α → σ → α → Prop} {s t : σ}

/-- Two loops over one list, from different states. -/
theorem Keeps.run_ne_iff_of_ne (h : Keeps step P) (hst : s ≠ t) (i : Nat) (l : List α) :
    run step i s l ≠ run step i t l ↔ Always step P i s t l l := by
  induction l generalizing i s t with
  | nil => exact iff_of_true hst trivial
  | cons a l ih =>
    rw [run, run, Always, ← h.state i s t a hst]
    by_cases hs : step i s a = step i t a
    · rw [hs]
      exact iff_of_false (fun hne => hne rfl) fun hP => hP.1 rfl
    · rw [ih hs]
      exact (and_iff_right hs).symm

/-- As long as they take the same elements two loops from one state do not differ. -/
theorem Keeps.always_append (h : Keeps step P) (i : Nat) (s : σ) (pre l m : List α) :
    Always step P i s s (pre ++ l) (pre ++ m) ↔
      Always step P (i + pre.length) (run step i s pre) (run step i s pre) l m := by
  induction pre generalizing i s with
  | nil => rfl
  | cons a pre ih =>
    rw [List.cons_append, List.cons_append, Always, and_iff_right (h.same s a), ih, run,
      List.length_cons, Nat.add_right_comm, Nat.add_assoc]

theorem run_append (i : Nat) (s : σ) (pre l : List α) :
    run step i s (pre ++ l) = run step (i + pre.length) (run step i s pre) l := by
  induction pre generalizing i s with
  | nil => rfl
  | cons a pre ih =>
    rw [List.cons_append, run, ih, run, List.length_cons, Nat.add_right_comm, Nat.add_assoc]

/-- Two loops over lists that differ in one element, from one state. -/
theorem Keeps.run_ne_iff (h : Keeps step P) (hlm : DifferOnce l m) (i : Nat) (s : σ) :
    run step i s l ≠ run step i s m ↔ Always step P i s s l m := by
  obtain ⟨pre, a, b, post, hab, rfl, rfl⟩ := hlm.cases
  rw [h.always_append, run_append, run_append]
  generalize i + pre.length = i
  generalize run step _ s pre = s
  rw [run, run, Always, ← h.elem i s a b hab]
  by_cases hs : step i s a = step i s b
  · rw [hs]
    exact iff_of_false (fun hne => hne rfl) fun hP => hP.1 rfl
  · rw [h.run_ne_iff_of_ne hs]
    exact (and_iff_right hs).symm

end Lockstep
