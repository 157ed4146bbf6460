import Mathlib.Data.List.Perm.Basic

/-!
# Arrays that are filled from the front

An array of fixed size whose first `count` slots are in use. An item is added behind the last one in
use, and removed by moving the last one into its slot: the items from that slot on are then, in some
order, those that stood behind the removed one.
-/

namespace CLib

variable {α : Type}

/-- An array and the number of its slots in use. -/
structure Filled (α : Type) where
  slots : List α
  count : Nat
deriving DecidableEq

namespace Filled

/-- `slots[0..count)` -/
def items (a : Filled α) : List α := a.slots.take a.count

/-- `slots[count++] = x` -/
def push (a : Filled α) (x : α) : Option (Filled α) :=
  if a.count < a.slots.length then some ⟨a.slots.set a.count x, a.count + 1⟩ else none

/-- `slots[i] = slots[count - 1]; count--` -/
def moveLast (a : Filled α) (i : Nat) : Option (Filled α) :=
  if 0 < a.count ∧ i < a.slots.length then
    (a.slots[a.count - 1]?).map fun x => ⟨a.slots.set i x, a.count - 1⟩
  else none

variable {a a' : Filled α}

theorem length_items (h : a.count ≤ a.slots.length) : a.items.length = a.count := by
  simp [items, h]

/-- A slot in use is an item. -/
theorem items_getElem? {i : Nat} (h : i < a.count) : a.items[i]? = a.slots[i]? :=
  List.getElem?_take_of_lt h

theorem push_items {x : α} (h : a.push x = some a') :
    a'.items = a.items ++ [x] ∧ a'.slots.length = a.slots.length ∧ a'.count = a.count + 1 := by
  unfold push at h
  split at h
  · next hc =>
    cases h
    refine ⟨?_, by simp, rfl⟩
    show (a.slots.set a.count x).take (a.count + 1) = a.slots.take a.count ++ [x]
    rw [List.take_add_one, List.take_set_of_le (Nat.le_refl _), List.getElem?_set_self hc]
    rfl
  · cases h

/-- The last item closes the gap at `i`. -/
theorem moveLast_items {i : Nat} (hle : a.count ≤ a.slots.length) (hi : i < a.count) :
    ∃ a', a.moveLast i = some a' ∧ a'.slots.length = a.slots.length ∧ a'.count = a.count - 1 ∧
      a'.items.take i = a.items.take i ∧ (a'.items.drop i).Perm (a.items.drop (i + 1)) := by
  have hlast : a.count - 1 < a.slots.length := by omega
  refine ⟨⟨a.slots.set i a.slots[a.count - 1], a.count - 1⟩, ?_, by simp, rfl, ?_, ?_⟩
  · rw [moveLast, if_pos ⟨by omega, by omega⟩, List.getElem?_eq_getElem hlast]
    rfl
  · show ((a.slots.set i _).take (a.count - 1)).take i = (a.slots.take a.count).take i
    rw [List.take_take, List.take_take, Nat.min_eq_left (by omega), Nat.min_eq_left (by omega),
      List.take_set_of_le (Nat.le_refl _)]
  · show (((a.slots.set i _).take (a.count - 1)).drop i).Perm ((a.slots.take a.count).drop (i + 1))
    -- the items behind `i`, of which the last one is the one that moves
    have hsplit : a.slots.take a.count =
        a.slots.take (a.count - 1) ++ [a.slots[a.count - 1]] := by
      rw [← List.take_succ_eq_append_getElem hlast, Nat.sub_add_cancel (by omega)]
    rcases Nat.lt_or_ge (i + 1) a.count with h | h
    · have hdrop : ((a.slots.set i a.slots[a.count - 1]).take (a.count - 1)).drop i =
          a.slots[a.count - 1] :: (a.slots.take (a.count - 1)).drop (i + 1) := by
        rw [List.take_set, List.drop_eq_getElem_cons (by simp; omega), List.getElem_set_self,
          List.drop_set_of_lt (Nat.lt_succ_self i)]
      rw [hdrop, hsplit, List.drop_append_of_le_length (by simp; omega)]
      exact (List.perm_append_singleton _ _).symm
    · rw [List.drop_of_length_le (by simp; omega), List.drop_of_length_le (by simp; omega)]

end Filled

end CLib
