import Mathlib.Logic.Function.Basic
import Mathlib.Order.Lattice
import Mathlib.Order.Nat
import Mathlib.Data.List.Basic

/-!
# Memory with barriers

Processors whose stores become visible to others in any order, and whose loads may return old values,
but for what barriers rule out. A location has its stores in coherence order. A processor knows of
each location up to which store it has come: a load returns that store or a later one. A store carries
what its processor had stored before its last write barrier; a processor that has loaded the store has
come to what it carries at its next read barrier.
-/

namespace WeakMemory

variable {κ ν : Type}

/-- Of each location the number of a store. -/
abbrev View (κ : Type) := κ → Nat

/-- A value in memory, and the stores that whoever loads it has to see after a read barrier. -/
structure Store (κ ν : Type) where
  value : ν
  view : View κ

/-- The stores of each location, the first of which is its initial value. -/
abbrev Memory (κ ν : Type) := κ → List (Store κ ν)

/-- No location has been stored to. -/
def Memory.initial (init : κ → ν) : Memory κ ν := fun x => [⟨init x, fun _ => 0⟩]

/-- What a processor has seen of the stores, by their numbers. -/
structure Cpu (κ : Type) where
  /-- The oldest stores that a load may return. -/
  seen : View κ
  /-- What the loaded stores carried. -/
  loaded : View κ
  /-- The stores of the processor itself. -/
  written : View κ
  /-- Those before its last write barrier. -/
  published : View κ

/-- A processor that has made no access. -/
def Cpu.initial : Cpu κ := ⟨fun _ => 0, fun _ => 0, fun _ => 0, fun _ => 0⟩

/-- `smp_wmb()` -/
def Cpu.wmb (c : Cpu κ) : Cpu κ := { c with published := c.published ⊔ c.written }

/-- `smp_rmb()` -/
def Cpu.rmb (c : Cpu κ) : Cpu κ := { c with seen := c.seen ⊔ c.loaded }

/-- Every store of `y` from number `u` on carries store `t` of `x`, and so does every store that carries
one of those. -/
structure Carries (mem : Memory κ ν) (y : κ) (u : Nat) (x : κ) (t : Nat) : Prop where
  own : ∀ i s, u ≤ i → (mem y)[i]? = some s → t ≤ s.view x
  passed : ∀ z, ∀ s ∈ mem z, u ≤ s.view y → t ≤ s.view x

/-- A processor that has come to store `u` of `y` has what that store carries of `x`. -/
def Cpu.Knows (c : Cpu κ) (y : κ) (u : Nat) (x : κ) (t : Nat) : Prop :=
  u ≤ c.seen y ∨ u ≤ c.loaded y → t ≤ c.loaded x

/-- Behind a read barrier no load returns what is older than what was carried. -/
theorem Cpu.Knows.seen {c : Cpu κ} {x y : κ} {t u : Nat} (h : c.Knows y u x t) (hu : u ≤ c.seen y) :
    t ≤ c.rmb.seen x :=
  le_sup_of_le_right (h (.inl hu))

theorem Cpu.Knows.rmb {c : Cpu κ} {x y : κ} {t u : Nat} (h : c.Knows y u x t) :
    c.rmb.Knows y u x t := by
  rintro (hu | hu)
  · exact h (le_sup_iff.mp hu)
  · exact h (.inr hu)

theorem Cpu.seen_le_rmb (c : Cpu κ) (x : κ) : c.seen x ≤ c.rmb.seen x := le_sup_left

/-- What was stored before a write barrier is published behind it. -/
theorem Cpu.written_le_wmb (c : Cpu κ) (x : κ) : c.written x ≤ c.wmb.published x := le_sup_right

theorem Cpu.knows_initial {x y : κ} {t u : Nat} (hu : 0 < u) :
    (Cpu.initial : Cpu κ).Knows y u x t := by
  rintro (h | h)
  · exact absurd h (Nat.not_le_of_gt hu)
  · exact absurd h (Nat.not_le_of_gt hu)

theorem carries_initial {init : κ → ν} {x y : κ} {t u : Nat} (hu : 0 < u) :
    Carries (Memory.initial init) y u x t where
  own := by
    intro i s hi hs
    obtain ⟨hlt, -⟩ := List.getElem?_eq_some_iff.mp hs
    have hone : (Memory.initial init y).length = 1 := rfl
    omega
  passed := by
    intro z s hs hle
    rw [List.mem_singleton.mp hs] at hle
    exact absurd hle (Nat.not_le_of_gt hu)

section Ops

variable [DecidableEq κ]

/-- A load that returns store `t` of `x`. -/
def Cpu.load (c : Cpu κ) (mem : Memory κ ν) (x : κ) (t : Nat) : Option (ν × Cpu κ) :=
  if c.seen x ≤ t then
    (mem x)[t]?.map fun s =>
      (s.value, { c with
        seen := Function.update c.seen x t
        loaded := c.loaded ⊔ s.view })
  else none

/-- A store of `v` to `x`, which carries what is before the last write barrier. -/
def Cpu.store (c : Cpu κ) (mem : Memory κ ν) (x : κ) (v : ν) : Cpu κ × Memory κ ν :=
  ({ c with
      seen := Function.update c.seen x (mem x).length
      written := Function.update c.written x (mem x).length },
    Function.update mem x (mem x ++ [⟨v, c.published⟩]))

variable {c c' : Cpu κ} {mem : Memory κ ν} {x y : κ} {t u : Nat} {v : ν}

theorem Cpu.load_some (h : c.load mem x t = some (v, c')) :
    ∃ s, (mem x)[t]? = some s ∧ v = s.value ∧ c.seen x ≤ t ∧ c'.seen = Function.update c.seen x t ∧
      c'.loaded = c.loaded ⊔ s.view := by
  unfold Cpu.load at h
  split at h
  · next hle =>
    obtain ⟨s, hs, heq⟩ := Option.map_eq_some_iff.mp h
    obtain ⟨rfl, rfl⟩ := Prod.mk.inj heq
    exact ⟨s, hs, rfl, hle, rfl, rfl⟩
  · cases h

theorem Cpu.store_same : (c.store mem x v).2 x = mem x ++ [⟨v, c.published⟩] :=
  Function.update_self x _ mem

theorem Cpu.store_ne (h : y ≠ x) : (c.store mem x v).2 y = mem y := Function.update_of_ne h _ mem

/-! ## Message passing -/

/-- A store of a processor that publishes the store of `x` with those of `y`: one of `y` itself stands
behind a write barrier. -/
theorem Carries.store (h : Carries mem y u x t) {z : κ} (hown : z = y → t ≤ c.published x)
    (hpassed : u ≤ c.published y → t ≤ c.published x) : Carries (c.store mem z v).2 y u x t where
  own := by
    intro i s hi hs
    by_cases hz : y = z
    · subst hz
      rw [Cpu.store_same, List.getElem?_append] at hs
      split at hs
      · exact h.own i s hi hs
      · rw [List.mem_singleton.mp (List.mem_of_getElem? hs)]
        exact hown rfl
    · rw [Cpu.store_ne hz] at hs
      exact h.own i s hi hs
  passed := by
    intro w s hs hu
    by_cases hw : w = z
    · subst hw
      rw [Cpu.store_same, List.mem_append, List.mem_singleton] at hs
      rcases hs with hs | rfl
      · exact h.passed w s hs hu
      · exact hpassed hu
    · rw [Cpu.store_ne hw] at hs
      exact h.passed w s hs hu

theorem Cpu.Knows.load (h : c.Knows y u x t) (hc : Carries mem y u x t) {z : κ} {i : Nat}
    (hl : c.load mem z i = some (v, c')) : c'.Knows y u x t := by
  obtain ⟨s, hs, -, hle, hseen, hloaded⟩ := Cpu.load_some hl
  have hpassed := hc.passed z s (List.mem_of_getElem? hs)
  rw [Cpu.Knows, hseen, hloaded]
  rintro (hu | hu)
  · by_cases hz : y = z
    · subst hz
      rw [Function.update_self] at hu
      exact le_sup_of_le_right (hc.own i s hu hs)
    · rw [Function.update_of_ne hz] at hu
      exact le_sup_of_le_left (h (.inl hu))
  · rcases le_sup_iff.mp hu with hu | hu
    · exact le_sup_of_le_left (h (.inr hu))
    · exact le_sup_of_le_right (hpassed hu)

theorem Cpu.seen_le_load (h : c.load mem y t = some (v, c')) (x : κ) : c.seen x ≤ c'.seen x := by
  obtain ⟨s, -, -, hle, hseen, -⟩ := Cpu.load_some h
  rw [hseen]
  by_cases hx : x = y
  · rw [hx, Function.update_self]
    exact hle
  · rw [Function.update_of_ne hx]

end Ops

/-- Without barriers a processor can see the second of two stores and not the first. -/
example :
    let w := Cpu.initial.store (Memory.initial fun _ : Bool => 0) false 1
    let w' := w.1.store w.2 true 1
    ((Cpu.initial.load w'.2 true 1).bind fun p => p.2.load w'.2 false 0).map Prod.fst = some 0 := by
  decide

end WeakMemory
