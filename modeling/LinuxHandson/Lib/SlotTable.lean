import Mathlib.Data.Fintype.Card
import Mathlib.Data.Finset.Image
import Mathlib.Data.List.FinRange

/-!
# Fixed tables of slots

A table is a fixed number of slots, some of them used, each used one holding an entry with a key.
Searches run over the slots in order. While the keys of the used slots are pairwise different the
table is a finite map: a search by key finds the one slot with that key, and a free slot exists as
long as there are fewer keys than slots.
-/

namespace SlotTable

variable {n : Nat} {α κ : Type}

/-- The first slot whose entry satisfies `p`. -/
def first (p : α → Bool) (t : Fin n → α) : Option (Fin n) :=
  (List.finRange n).find? fun i => p (t i)

theorem first_some {p : α → Bool} {t : Fin n → α} {i : Fin n} (h : first p t = some i) :
    p (t i) = true := by
  simpa using List.find?_some h

theorem first_eq_none {p : α → Bool} {t : Fin n → α} :
    first p t = none ↔ ∀ i, p (t i) = false := by
  simp [first]

/-- The only slot that satisfies `p` is the first one. -/
theorem first_of_unique {p : α → Bool} {t : Fin n → α} {i : Fin n} (hi : p (t i) = true)
    (huniq : ∀ j, p (t j) = true → j = i) : first p t = some i := by
  cases h : first p t with
  | none => rw [first_eq_none.mp h i] at hi; cases hi
  | some j => rw [huniq j (first_some h)]

section Keyed

variable [DecidableEq κ] (used : α → Bool) (key : α → κ)

/-- No two used slots have the same key. -/
def KeysUnique (t : Fin n → α) : Prop :=
  ∀ i j, used (t i) = true → used (t j) = true → key (t i) = key (t j) → i = j

/-- The first used slot with key `k`. -/
def find (t : Fin n → α) (k : κ) : Option (Fin n) :=
  first (fun e => used e && decide (key e = k)) t

/-- The used slots. -/
def occupied (t : Fin n → α) : Finset (Fin n) := Finset.univ.filter fun i => used (t i) = true

/-- The keys of the used slots. -/
def keys (t : Fin n → α) : Finset κ := (occupied used t).image fun i => key (t i)

variable {used key}

theorem find_some {t : Fin n → α} {k : κ} {i : Fin n} (h : find used key t k = some i) :
    used (t i) = true ∧ key (t i) = k := by
  simpa using first_some h

theorem find_eq_none {t : Fin n → α} {k : κ} :
    find used key t k = none ↔ ∀ i, used (t i) = true → key (t i) ≠ k := by
  simp [find, first_eq_none]

theorem KeysUnique.find_eq {t : Fin n → α} (hu : KeysUnique used key t) {k : κ} {i : Fin n} :
    find used key t k = some i ↔ used (t i) = true ∧ key (t i) = k := by
  refine ⟨find_some, fun ⟨h1, h2⟩ => ?_⟩
  refine first_of_unique (by simp [h1, h2]) fun j hj => ?_
  simp only [Bool.and_eq_true, decide_eq_true_eq] at hj
  exact hu j i hj.1 h1 (hj.2.trans h2.symm)

theorem mem_keys {t : Fin n → α} {k : κ} :
    k ∈ keys used key t ↔ ∃ i, used (t i) = true ∧ key (t i) = k := by
  simp [keys, occupied]

theorem mem_keys_iff_find {t : Fin n → α} {k : κ} :
    k ∈ keys used key t ↔ (find used key t k).isSome = true := by
  rw [mem_keys, Option.isSome_iff_ne_none, ne_eq, find_eq_none]
  push Not
  rfl

/-- With unique keys there are as many keys as used slots. -/
theorem KeysUnique.card_keys {t : Fin n → α} (hu : KeysUnique used key t) :
    (keys used key t).card = (occupied used t).card := by
  apply Finset.card_image_of_injOn
  intro i hi j hj hij
  have hi' : used (t i) = true := (Finset.mem_filter.mp (Finset.mem_coe.mp hi)).2
  have hj' : used (t j) = true := (Finset.mem_filter.mp (Finset.mem_coe.mp hj)).2
  exact hu i j hi' hj' hij

/-- A free slot is missing exactly when the keys fill the table. -/
theorem KeysUnique.no_free {t : Fin n → α} (hu : KeysUnique used key t) :
    first (fun e => !used e) t = none ↔ n ≤ (keys used key t).card := by
  rw [hu.card_keys, first_eq_none]
  constructor
  · intro h
    have : occupied used t = Finset.univ := by
      ext i
      simpa [occupied] using h i
    rw [this, Finset.card_univ, Fintype.card_fin]
  · intro h i
    have huniv : occupied used t = Finset.univ := by
      apply Finset.eq_univ_of_card
      rw [Fintype.card_fin]
      exact le_antisymm ((Finset.card_le_univ _).trans_eq (Fintype.card_fin n)) h
    have hi : i ∈ occupied used t := huniv ▸ Finset.mem_univ i
    simpa [occupied] using hi

/-! ## Searches after one slot has changed -/

variable {t : Fin n → α} {i : Fin n} {e : α}

omit [DecidableEq κ] in
/-- Writing a slot keeps the keys unique if the new entry's key is in no other used slot. -/
theorem KeysUnique.update (hu : KeysUnique used key t)
    (hnew : used e = true → ∀ j, j ≠ i → used (t j) = true → key (t j) ≠ key e) :
    KeysUnique used key (Function.update t i e) := by
  intro a b ha hb hab
  by_cases hai : a = i
  · by_cases hbi : b = i
    · rw [hai, hbi]
    · subst hai
      rw [Function.update_self] at ha hab
      rw [Function.update_of_ne hbi] at hb hab
      exact absurd hab.symm (hnew ha b hbi hb)
  · by_cases hbi : b = i
    · subst hbi
      rw [Function.update_self] at hb hab
      rw [Function.update_of_ne hai] at ha hab
      exact absurd hab (hnew hb a hai ha)
    · rw [Function.update_of_ne hai] at ha hab
      rw [Function.update_of_ne hbi] at hb hab
      exact hu a b ha hb hab

/-- A search for a key that neither the old nor the new entry of the written slot carries. -/
theorem find_update_of_ne {k : κ} (hold : used (t i) = true → key (t i) ≠ k)
    (hnew : used e = true → key e ≠ k) :
    find used key (Function.update t i e) k = find used key t k := by
  unfold find first
  congr 1
  funext j
  by_cases hj : j = i
  · subst hj
    rw [Function.update_self]
    have h1 : (used e && decide (key e = k)) = false := by simpa using hnew
    have h2 : (used (t j) && decide (key (t j) = k)) = false := by simpa using hold
    exact h1.trans h2.symm
  · rw [Function.update_of_ne hj]

end Keyed

end SlotTable
