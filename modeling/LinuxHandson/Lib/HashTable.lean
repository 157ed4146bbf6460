import Mathlib.Data.List.Basic
import Mathlib.Logic.Function.Basic

/-!
# Chained hash tables

A table is a list of nodes for each bucket. A node is added in front of its bucket, and is deleted by
its place there. Searches run over the bucket of the key. For each key the nodes with that key form a
stack, whatever the hash function does and whatever other nodes share the bucket.
-/

namespace HashTable

variable {κ α β : Type} [DecidableEq κ] [DecidableEq β] {key : α → κ} {hash : κ → β}

/-- The nodes of each bucket, the one added last first. -/
abbrev Table (β α : Type) := β → List α

/-- `hash_init(table)` -/
def empty : Table β α := fun _ => []

/-- `hash_add(table, node, k)` -/
def hashAdd (hash : κ → β) (t : Table β α) (a : α) (k : κ) : Table β α :=
  Function.update t (hash k) (a :: t (hash k))

/-- The place of the first node with key `k` among those of its bucket, which
`hash_for_each_possible` goes through. -/
def firstPossible (key : α → κ) (hash : κ → β) (t : Table β α) (k : κ) : Option Nat :=
  (t (hash k)).findIdx? fun a => decide (key a = k)

/-- `hash_del` of the node at place `i` of bucket `b`. -/
def hashDel (t : Table β α) (b : β) (i : Nat) : Table β α :=
  Function.update t b ((t b).eraseIdx i)

/-- The nodes with key `k`, the one added last first. -/
def stack (key : α → κ) (hash : κ → β) (t : Table β α) (k : κ) : List α :=
  (t (hash k)).filter fun a => decide (key a = k)

omit [DecidableEq β] in
theorem stack_empty (k : κ) : stack key hash (empty : Table β α) k = [] := rfl

theorem stack_hashAdd (t : Table β α) {a : α} {k : κ} (ha : key a = k) (j : κ) :
    stack key hash (hashAdd hash t a k) j =
      if j = k then a :: stack key hash t j else stack key hash t j := by
  unfold stack hashAdd
  by_cases hb : hash j = hash k
  · rw [hb, Function.update_self, List.filter_cons]
    by_cases hj : j = k
    · subst hj
      simp [ha]
    · have hne : ¬ key a = j := fun h => hj (h.symm.trans ha)
      simp [hj, hne]
  · have hj : j ≠ k := fun h => hb (congrArg hash h)
    rw [Function.update_of_ne hb, if_neg hj]

omit [DecidableEq β] in
/-- A search finds the node of its key that was added last. -/
theorem firstPossible_node (t : Table β α) (k : κ) :
    ((firstPossible key hash t k).bind fun i => (t (hash k))[i]?) =
      (stack key hash t k).head? := by
  unfold firstPossible stack
  rw [List.head?_filter]
  induction t (hash k) with
  | nil => rfl
  | cons a l ih =>
    rw [List.findIdx?_cons, List.find?_cons]
    by_cases ha : key a = k
    · simp [ha]
    · simp only [ha, decide_false, Bool.false_eq_true, if_false, ← ih]
      cases l.findIdx? fun a => decide (key a = k) <;> rfl

theorem filter_eraseP (l : List α) (j k : κ) :
    (l.eraseP fun a => decide (key a = k)).filter (fun a => decide (key a = j)) =
      if j = k then (l.filter fun a => decide (key a = j)).tail
      else l.filter fun a => decide (key a = j) := by
  induction l with
  | nil => split <;> rfl
  | cons a l ih =>
    by_cases ha : key a = k
    · rw [List.eraseP_cons_of_pos (by simpa using ha), List.filter_cons]
      by_cases hj : j = k
      · simp [hj, ha]
      · have hne : ¬ key a = j := fun h => hj (h.symm.trans ha)
        simp [hj, hne]
    · rw [List.eraseP_cons_of_neg (by simpa using ha), List.filter_cons, List.filter_cons, ih]
      by_cases hj : j = k
      · subst hj
        simp [ha]
      · simp [hj]

/-- Deleting the node that a search has found takes the top off the stack of its key. -/
theorem stack_hashDel {t : Table β α} {k : κ} {i : Nat} (hi : firstPossible key hash t k = some i)
    (j : κ) :
    stack key hash (hashDel t (hash k) i) j =
      if j = k then (stack key hash t j).tail else stack key hash t j := by
  have herase : (t (hash k)).eraseIdx i = (t (hash k)).eraseP fun a => decide (key a = k) := by
    rw [List.eraseP_eq_eraseIdx]
    unfold firstPossible at hi
    rw [hi]
  unfold stack hashDel
  rw [herase]
  by_cases hb : hash j = hash k
  · rw [hb, Function.update_self]
    exact filter_eraseP _ j k
  · have hj : j ≠ k := fun h => hb (congrArg hash h)
    rw [Function.update_of_ne hb, if_neg hj]

end HashTable
