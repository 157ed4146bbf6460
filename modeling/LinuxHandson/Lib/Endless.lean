import LinuxHandson.Lib.Loop
import Mathlib.Data.Set.Finite.Basic
import Mathlib.Data.Fintype.Pigeonhole
import Mathlib.Logic.Relation

/-!
# Loops that never end

A loop that goes on after any number of rounds. If what a round does is decided by a part of the state
that takes finitely many values, the loop goes on for ever exactly if this part comes to a cycle.
-/

namespace CLib

open Relation

variable {σ ρ κ : Type} {body : σ → Round σ ρ} {s s' : σ} {r : ρ} {n : Nat}

/-- The loop goes on after any number of rounds. -/
def Forever (body : σ → Round σ ρ) (s : σ) : Prop := ∀ n, ∃ s', rounds body n s = .again s'

theorem rounds_again (h : body s = .again s') (n : Nat) :
    rounds body (n + 1) s = rounds body n s' := by
  simp only [rounds, h]

theorem rounds_succ (h : rounds body n s = .again s') : rounds body (n + 1) s = body s' := by
  induction n generalizing s with
  | zero =>
    cases h
    rw [rounds]
    split
    · next hs => exact hs.symm
    · next hr => exact hr.symm
    · next hu => exact hu.symm
  | succ n ih =>
    rw [rounds] at h
    split at h
    · next s1 hs1 =>
      rw [rounds_again hs1]
      exact ih h
    · cases h
    · cases h

theorem Forever.trajectory (h : Forever body s) :
    ∃ f : Nat → σ, f 0 = s ∧ (∀ n, rounds body n s = .again (f n)) ∧
      ∀ n, body (f n) = .again (f (n + 1)) := by
  choose f hf using h
  refine ⟨f, ?_, hf, ?_⟩
  · have h0 := hf 0
    cases h0
    rfl
  · intro n
    rw [← rounds_succ (hf n)]
    exact hf (n + 1)

/-- A loop whose rounds all go on, as long as an invariant holds that they keep. -/
theorem forever_of_invariant {Inv : σ → Prop}
    (hstep : ∀ s, Inv s → ∃ s', body s = .again s' ∧ Inv s') : ∀ s, Inv s → Forever body s := by
  intro s hs n
  induction n generalizing s with
  | zero => exact ⟨s, rfl⟩
  | succ n ih =>
    obtain ⟨s1, h1, hs1⟩ := hstep s hs
    rw [rounds_again h1]
    exact ih s1 hs1

theorem Forever.of_again (h : Forever body s') (hs : body s = .again s') : Forever body s := by
  intro n
  cases n with
  | zero => exact ⟨s, rfl⟩
  | succ n =>
    rw [rounds_again hs]
    exact h n

/-- What goes on for ever after some rounds goes on for ever. -/
theorem Forever.of_rounds (h : Forever body s') {n : Nat} {s : σ} (hn : rounds body n s = .again s') :
    Forever body s :=
  of_rounds_again (fun _ _ hs h => h.of_again hs) h hn

/-- A loop that ends does not go on for ever. -/
theorem Ends.not_forever (h : Ends body s r) : ¬ Forever body s := by
  intro hf
  obtain ⟨n, hn⟩ := h
  obtain ⟨s', hs'⟩ := hf n
  rw [hn] at hs'
  cases hs'

/-- A loop at a value from which steps lead back to this value, each of which is a round of it. -/
theorem forever_of_cycle {R : κ → κ → Prop} {At : κ → σ → Prop}
    (hstep : ∀ k k' s, R k k' → At k s → ∃ s', body s = .again s' ∧ At k' s') {k : κ}
    (hc : TransGen R k k) (hs : At k s) : Forever body s := by
  have hgo : ∀ s, (∃ k, TransGen R k k ∧ At k s) →
      ∃ s', body s = .again s' ∧ ∃ k, TransGen R k k ∧ At k s' := by
    rintro s ⟨k, hc, hs⟩
    obtain ⟨k', hk, hrest⟩ := TransGen.head'_iff.mp hc
    obtain ⟨s', hs', hat⟩ := hstep k k' s hk hs
    exact ⟨s', hs', k', TransGen.tail' hrest hk, hat⟩
  exact forever_of_invariant hgo s ⟨k, hc, hs⟩

/-- Steps without end through finitely many values come back to one of them. -/
theorem exists_cycle {R : κ → κ → Prop} {S : Set κ} (hS : S.Finite) {f : Nat → κ} {N : Nat}
    (hf : ∀ n, N ≤ n → f n ∈ S) (hR : ∀ n, N ≤ n → R (f n) (f (n + 1))) :
    ∃ n, N ≤ n ∧ TransGen R (f n) (f n) := by
  have hpath : ∀ n p, N ≤ n → TransGen R (f n) (f (n + p + 1)) := by
    intro n p hn
    induction p with
    | zero => exact .single (hR n hn)
    | succ p ih => exact ih.tail (hR (n + p + 1) (by omega))
  have : Finite S := hS
  obtain ⟨i, j, hne, heq⟩ := Finite.exists_ne_map_eq_of_infinite
    fun i : Nat => (⟨f (N + i), hf (N + i) (Nat.le_add_right N i)⟩ : S)
  have heq : f (N + i) = f (N + j) := congrArg Subtype.val heq
  rcases Nat.lt_or_gt_of_ne hne with hlt | hlt
  · have hcycle := hpath (N + i) (j - i - 1) (Nat.le_add_right N i)
    rw [show N + i + (j - i - 1) + 1 = N + j by omega, ← heq] at hcycle
    exact ⟨N + i, Nat.le_add_right N i, hcycle⟩
  · have hcycle := hpath (N + j) (i - j - 1) (Nat.le_add_right N j)
    rw [show N + j + (i - j - 1) + 1 = N + i by omega, heq] at hcycle
    exact ⟨N + j, Nat.le_add_right N j, hcycle⟩

/-- A number that only grows, up to a bound, is at last the same in all rounds. -/
theorem exists_stable {f : Nat → Nat} (hmono : ∀ n, f n ≤ f (n + 1)) {B : Nat} (hB : ∀ n, f n ≤ B) :
    ∃ N, ∀ n, N ≤ n → f n = f N := by
  by_contra hno
  simp only [not_exists, not_forall] at hno
  have hle : ∀ n p, f n ≤ f (n + p) := by
    intro n p
    induction p with
    | zero => exact Nat.le_refl _
    | succ p ih => exact ih.trans (hmono (n + p))
  have hgrow : ∀ k, ∃ n, k ≤ f n := by
    intro k
    induction k with
    | zero => exact ⟨0, Nat.zero_le _⟩
    | succ k ih =>
      obtain ⟨n, hn⟩ := ih
      obtain ⟨m, hm, hne⟩ := hno n
      have := hle n (m - n)
      rw [Nat.add_sub_cancel' hm] at this
      exact ⟨m, by omega⟩
  obtain ⟨n, hn⟩ := hgrow (B + 1)
  have := hB n
  omega

end CLib
