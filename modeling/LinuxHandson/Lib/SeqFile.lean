import Mathlib.Algebra.BigOperators.Group.List.Basic
import Mathlib.Algebra.GroupWithZero.Nat
import Mathlib.Data.List.Basic

/-!
# Sequence files

A sequence of records is read in sessions. A session starts at the saved position, shows records until
its buffer is full, advances once for every record shown, and saves the position again.
-/

namespace CLib

/-- `start` and `next` of `struct seq_operations`. A position comes back from each call. -/
structure SeqOps (α : Type) where
  start : Nat → Option α × Nat
  next : α → Nat → Option α × Nat

variable {α : Type}

namespace SeqOps

/-- The loop of a session with room for `k` records, at a record and its position: the records that it
shows, and the position when it stops. -/
def fill (ops : SeqOps α) : Nat → α → Nat → List α × Nat
  | 0, _, pos => ([], pos)
  | k + 1, v, pos =>
    match ops.next v pos with
    | (none, pos') => ([v], pos')
    | (some v', pos') => (v :: (ops.fill k v' pos').1, (ops.fill k v' pos').2)

/-- A session. -/
def session (ops : SeqOps α) (k pos : Nat) : List α × Nat :=
  match ops.start pos with
  | (none, pos') => ([], pos')
  | (some v, pos') => ops.fill k v pos'

/-- Sessions with room for some numbers of records, one after the other. -/
def sessions (ops : SeqOps α) : List Nat → Nat → List α × Nat
  | [], pos => ([], pos)
  | k :: ks, pos =>
    ((ops.session k pos).1 ++ (ops.sessions ks (ops.session k pos).2).1,
      (ops.sessions ks (ops.session k pos).2).2)

/-- The operations go through a list by position. -/
structure Enumerates (ops : SeqOps α) (items : List α) : Prop where
  start : ∀ pos, ops.start pos = (items[pos]?, pos)
  next : ∀ v pos, items[pos]? = some v → ops.next v pos = (items[pos + 1]?, pos + 1)

variable {ops : SeqOps α} {items : List α} {k pos : Nat} {v : α}

/-- The records of a session from a record on. -/
theorem Enumerates.fill (h : ops.Enumerates items) (hv : items[pos]? = some v) :
    ops.fill k v pos = ((items.drop pos).take k, min (pos + k) items.length) := by
  induction k generalizing pos v with
  | zero =>
    have hlt := (List.getElem?_eq_some_iff.mp hv).1
    rw [SeqOps.fill, List.take_zero, Nat.add_zero, Nat.min_eq_left (Nat.le_of_lt hlt)]
  | succ k ih =>
    obtain ⟨hlt, hget⟩ := List.getElem?_eq_some_iff.mp hv
    have hdrop : items.drop pos = v :: items.drop (pos + 1) := by
      rw [List.drop_eq_getElem_cons hlt, hget]
    rw [SeqOps.fill, h.next v pos hv, hdrop, List.take_succ_cons]
    cases hnext : items[pos + 1]? with
    | none =>
      have hend := List.getElem?_eq_none_iff.mp hnext
      simp only
      rw [List.drop_of_length_le hend, List.take_nil, Nat.min_eq_right (by omega)]
      congr 1
      omega
    | some v' =>
      simp only [ih hnext]
      congr 2
      omega

theorem Enumerates.session (h : ops.Enumerates items) (k : Nat) (hpos : pos ≤ items.length) :
    ops.session k pos = ((items.drop pos).take k, min (pos + k) items.length) := by
  rw [SeqOps.session, h.start]
  cases hv : items[pos]? with
  | none =>
    have hend := List.getElem?_eq_none_iff.mp hv
    simp only
    rw [List.drop_of_length_le hend, List.take_nil]
    congr 1
    omega
  | some v => exact h.fill hv

/-- However a traversal is cut into sessions, these show the records in order, as many as they have room
for. -/
theorem Enumerates.sessions (h : ops.Enumerates items) (ks : List Nat) (hpos : pos ≤ items.length) :
    ops.sessions ks pos = ((items.drop pos).take ks.sum, min (pos + ks.sum) items.length) := by
  induction ks generalizing pos with
  | nil =>
    rw [SeqOps.sessions, List.sum_nil, List.take_zero, Nat.add_zero, Nat.min_eq_left hpos]
  | cons k ks ih =>
    have hnext : min (pos + k) items.length ≤ items.length := Nat.min_le_right _ _
    have hdrop : items.drop (min (pos + k) items.length) = items.drop (pos + k) := by
      rcases Nat.le_total (pos + k) items.length with hle | hge
      · rw [Nat.min_eq_left hle]
      · rw [Nat.min_eq_right hge, List.drop_length, List.drop_of_length_le hge]
    rw [SeqOps.sessions, h.session k hpos]
    simp only [ih hnext]
    rw [List.sum_cons, List.take_add, List.drop_drop, hdrop]
    congr 1
    omega

end SeqOps

end CLib
