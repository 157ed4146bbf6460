import Mathlib.Logic.Function.Basic
import Mathlib.Data.List.Basic

/-!
# Linked lists in a heap

Nodes of type `β` at addresses of type `α`, each with a link to the next one. `Linked` relates a
pointer to the addresses of the nodes that it leads to.
-/

namespace CLib

variable {α β : Type} {next : β → Option α}

/-- From the pointer `p` the links lead through the nodes at `q`, in order, and then to `NULL`. -/
def Linked (next : β → Option α) (heap : α → Option β) : Option α → List α → Prop
  | p, [] => p = none
  | p, a :: q => p = some a ∧ ∃ b, heap a = some b ∧ Linked next heap (next b) q

namespace Linked

variable {heap heap' : α → Option β} {p : Option α} {q : List α}

theorem head_eq (h : Linked next heap p q) : p = q.head? := by
  cases q with
  | nil => exact h
  | cons a q => exact h.1

theorem eq_nil_iff (h : Linked next heap p q) : q = [] ↔ p = none := by
  rw [h.head_eq, List.head?_eq_none_iff]

/-- The nodes of a list are there. -/
theorem isSome (h : Linked next heap p q) {a : α} (ha : a ∈ q) : (heap a).isSome := by
  induction q generalizing p with
  | nil => cases ha
  | cons c q ih =>
    obtain ⟨-, b, hb, hq⟩ := h
    rcases List.mem_cons.mp ha with rfl | ha
    · rw [hb]
      rfl
    · exact ih hq ha

/-- A pointer leads through one list only. -/
theorem unique {q' : List α} (h : Linked next heap p q) (h' : Linked next heap p q') : q = q' := by
  induction q generalizing p q' with
  | nil => exact (h'.eq_nil_iff.mpr h).symm
  | cons a q ih =>
    obtain ⟨rfl, b, hb, hq⟩ := h
    cases q' with
    | nil => cases h'
    | cons a' q' =>
      obtain ⟨ha, b', hb', hq'⟩ := h'
      cases ha
      rw [hb] at hb'
      cases hb'
      rw [ih hq hq']

/-- Only the nodes of a list matter for it. -/
theorem congr (h : Linked next heap p q) (hheap : ∀ a ∈ q, heap' a = heap a) :
    Linked next heap' p q := by
  induction q generalizing p with
  | nil => exact h
  | cons c q ih =>
    obtain ⟨hp, b, hb, hq⟩ := h
    exact ⟨hp, b, by rw [hheap c (by simp), hb], ih hq fun a ha => hheap a (by simp [ha])⟩

/-- A new last node: the link of the old last node leads to it. -/
theorem append {q : List α} {t a : α} {b c : β} (h : Linked next heap p (q ++ [t]))
    (hheap : ∀ d ∈ q, heap' d = heap d) (ht : heap' t = some b) (hb : next b = some a)
    (ha : heap' a = some c) (hc : next c = none) : Linked next heap' p (q ++ [t] ++ [a]) := by
  induction q generalizing p with
  | nil => exact ⟨h.1, b, ht, hb, c, ha, hc⟩
  | cons d q ih =>
    obtain ⟨hp, e, he, hq⟩ := h
    exact ⟨hp, e, by rw [hheap d (by simp), he], ih hq fun x hx => hheap x (by simp [hx])⟩

end Linked

end CLib
