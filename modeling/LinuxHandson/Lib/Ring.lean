import Mathlib.Data.Nat.ModEq

/-!
# Ring buffers

A buffer whose elements are put at `head` and taken at `tail`, both of which wrap around. The
elements between `tail` and `head` are a queue.
-/

namespace CLib

variable {α : Type}

/-- The buffer holds the queue `xs`, whose first element is at `tail`. -/
structure Ring (buf : List α) (head tail : Nat) (xs : List α) : Prop where
  fits : xs.length ≤ buf.length
  tail_lt : tail < buf.length
  head_eq : head = (tail + xs.length) % buf.length
  holds : ∀ i, i < xs.length → buf[(tail + i) % buf.length]? = xs[i]?

namespace Ring

variable {buf xs : List α} {head tail : Nat} {x : α}

theorem nil (h : tail < buf.length) : Ring buf tail tail [] :=
  ⟨Nat.zero_le _, h, (Nat.mod_eq_of_lt h).symm, fun _ hi => absurd hi (Nat.not_lt_zero _)⟩

theorem head_lt (h : Ring buf head tail xs) : head < buf.length := by
  rw [h.head_eq]
  exact Nat.mod_lt _ (Nat.zero_lt_of_lt h.tail_lt)

/-- Two slots less than a whole round apart are different. -/
theorem slot_ne {t i j n : Nat} (hij : i < j) (hj : j < n) : (t + i) % n ≠ (t + j) % n := by
  intro h
  have hmod : i ≡ j [MOD n] := Nat.ModEq.add_left_cancel' t h
  have := hmod.eq_of_lt_of_lt (hij.trans hj) hj
  omega

theorem push (h : Ring buf head tail xs) (hlt : xs.length < buf.length) :
    Ring (buf.set head x) ((head + 1) % buf.length) tail (xs ++ [x]) := by
  refine ⟨?_, ?_, ?_, ?_⟩
  · rw [List.length_append, List.length_set]
    exact hlt
  · rw [List.length_set]
    exact h.tail_lt
  · rw [h.head_eq, Nat.mod_add_mod, List.length_set, List.length_append, Nat.add_assoc]
    rfl
  · intro i hi
    rw [List.length_append, List.length_singleton] at hi
    rw [List.length_set]
    rcases Nat.lt_succ_iff_lt_or_eq.mp hi with hi | rfl
    · have hne : head ≠ (tail + i) % buf.length := by
        rw [h.head_eq]
        exact (slot_ne hi hlt).symm
      rw [List.getElem?_set_ne hne, List.getElem?_append_left hi]
      exact h.holds i hi
    · rw [← h.head_eq, List.getElem?_set_self h.head_lt, List.getElem?_concat_length]

/-- The first element is at `tail`. -/
theorem first (h : Ring buf head tail (x :: xs)) : buf[tail]? = some x := by
  have h0 := h.holds 0 (Nat.succ_pos _)
  rwa [Nat.add_zero, Nat.mod_eq_of_lt h.tail_lt] at h0

theorem pop (h : Ring buf head tail (x :: xs)) :
    Ring buf head ((tail + 1) % buf.length) xs := by
  have hpos : 0 < buf.length := Nat.zero_lt_of_lt h.tail_lt
  have hshift : ∀ i, ((tail + 1) % buf.length + i) % buf.length = (tail + (i + 1)) % buf.length := by
    intro i
    rw [Nat.mod_add_mod, Nat.add_assoc, Nat.add_comm 1 i]
  refine ⟨(Nat.le_succ _).trans h.fits, Nat.mod_lt _ hpos, ?_, ?_⟩
  · rw [hshift]
    exact h.head_eq
  · intro i hi
    rw [hshift, h.holds (i + 1) (Nat.succ_lt_succ hi), List.getElem?_cons_succ]

end Ring

end CLib
