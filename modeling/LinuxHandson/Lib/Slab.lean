import Mathlib.Data.List.Basic
import Mathlib.Data.List.Nodup

/-!
# Caches of objects

`kmem_cache_alloc` finds an object or not, `kmem_cache_free` takes one back. An object is known by the
number of its allocation. A use of an object that was freed, or of none, is undefined.
-/

namespace Slab

variable {α : Type}

/-- What the allocator does at each call of `kmem_cache_alloc`. -/
structure Allocator (α : Type) where
  /-- The call returns `NULL`. -/
  fails : Nat → Bool
  /-- What the memory of the object holds at first. -/
  memory : Nat → α

/-- `struct kmem_cache`, with all objects that were allocated from it. -/
structure KmemCache (α : Type) where
  /-- The number of calls of `kmem_cache_alloc`. -/
  calls : Nat
  /-- For each object what it holds, until it is freed. -/
  objects : List (Option α)
  /-- The objects freed, in order. -/
  freed : List Nat
deriving DecidableEq

namespace KmemCache

/-- `kmem_cache_create` -/
def create : KmemCache α := ⟨0, [], []⟩

/-- What an object holds that is not freed. -/
def get (c : KmemCache α) (o : Nat) : Option α := c.objects[o]?.join

/-- `kmem_cache_alloc` -/
def alloc (c : KmemCache α) (a : Allocator α) : Option Nat × KmemCache α :=
  if a.fails c.calls then (none, { c with calls := c.calls + 1 })
  else (some c.objects.length, { c with
    calls := c.calls + 1
    objects := c.objects ++ [some (a.memory c.calls)] })

/-- `*p` -/
def load (c : KmemCache α) (p : Option Nat) : Option α := p.bind c.get

/-- `*p = f(*p)` -/
def modify (c : KmemCache α) (p : Option Nat) (f : α → α) : Option (KmemCache α) :=
  p.bind fun o => (c.get o).map fun v => { c with objects := c.objects.set o (some (f v)) }

/-- `kmem_cache_free`, of an object that is not freed. -/
def free (c : KmemCache α) (p : Option Nat) : Option (KmemCache α) :=
  p.bind fun o => (c.get o).map fun _ =>
    { c with objects := c.objects.set o none, freed := c.freed ++ [o] }

/-- The object is allocated and not freed. -/
def Live (c : KmemCache α) (o : Nat) : Prop := (c.get o).isSome

/-- Every object that was allocated is freed, and once. -/
def AllFreedOnce (c : KmemCache α) : Prop := ∀ o < c.objects.length, c.freed.count o = 1

/-- No object is freed twice, and those that were are the ones that are not live. -/
structure Inv (c : KmemCache α) : Prop where
  nodup : c.freed.Nodup
  freed : ∀ o, o ∈ c.freed ↔ o < c.objects.length ∧ ¬ c.Live o

variable {c c' : KmemCache α} {a : Allocator α} {f : α → α} {o : Nat} {p : Option Nat}

theorem Live.lt (h : c.Live o) : o < c.objects.length := by
  by_contra hle
  have hnone := List.getElem?_eq_none (Nat.not_lt.mp hle)
  rw [Live, get, hnone] at h
  cases h

theorem inv_create : (create : KmemCache α).Inv :=
  ⟨List.nodup_nil, fun _ => iff_of_false List.not_mem_nil fun h => absurd h.1 (Nat.not_lt_zero _)⟩

theorem Inv.allFreedOnce (h : c.Inv) (hlive : ∀ o, ¬ c.Live o) : c.AllFreedOnce := fun o ho =>
  List.count_eq_one_of_mem h.nodup ((h.freed o).mpr ⟨ho, hlive o⟩)

/-! ## Allocation -/

theorem alloc_fails (h : a.fails c.calls = true) : c.alloc a = (none, { c with calls := c.calls + 1 }) :=
  if_pos h

theorem alloc_succeeds (h : a.fails c.calls = false) :
    c.alloc a = (some c.objects.length, { c with
      calls := c.calls + 1
      objects := c.objects ++ [some (a.memory c.calls)] }) :=
  if_neg (by rw [h]; exact Bool.false_ne_true)

theorem isSome_alloc (c : KmemCache α) (a : Allocator α) :
    (c.alloc a).1.isSome ↔ a.fails c.calls = false := by
  cases hf : a.fails c.calls with
  | true =>
    rw [alloc_fails hf]
    exact iff_of_false Bool.false_ne_true Bool.false_ne_true.symm
  | false =>
    rw [alloc_succeeds hf]
    exact iff_of_true rfl rfl

theorem calls_alloc (c : KmemCache α) (a : Allocator α) : (c.alloc a).2.calls = c.calls + 1 := by
  unfold alloc
  split <;> rfl

theorem live_append {v : α} {n : Nat} :
    ({ c with calls := n, objects := c.objects ++ [some v] } : KmemCache α).Live o ↔
      c.Live o ∨ o = c.objects.length := by
  unfold Live get
  simp only
  rcases Nat.lt_trichotomy o c.objects.length with hlt | heq | hgt
  · rw [List.getElem?_append_left hlt]
    exact (or_iff_left (Nat.ne_of_lt hlt)).symm
  · rw [heq, List.getElem?_concat_length]
    exact iff_of_true rfl (Or.inr rfl)
  · rw [List.getElem?_eq_none (by rw [List.length_append, List.length_singleton]; omega),
      List.getElem?_eq_none (Nat.le_of_lt hgt)]
    refine iff_of_false Bool.false_ne_true ?_
    rintro (h | h)
    · cases h
    · omega

theorem Inv.alloc (h : c.Inv) (a : Allocator α) : (c.alloc a).2.Inv := by
  cases hf : a.fails c.calls with
  | true =>
    rw [alloc_fails hf]
    exact ⟨h.nodup, h.freed⟩
  | false =>
    rw [alloc_succeeds hf]
    refine ⟨h.nodup, fun o => ?_⟩
    rw [live_append, h.freed, List.length_append, List.length_singleton, not_or]
    constructor
    · rintro ⟨hlt, hdead⟩
      exact ⟨by omega, hdead, by omega⟩
    · rintro ⟨hlt, hdead, hne⟩
      exact ⟨by omega, hdead⟩

/-! ## Uses of an object -/

theorem modify_some (h : c.Live o) (f : α → α) : ∃ v, c.get o = some v ∧
    c.modify (some o) f = some { c with objects := c.objects.set o (some (f v)) } := by
  obtain ⟨v, hv⟩ := Option.isSome_iff_exists.mp h
  refine ⟨v, hv, ?_⟩
  rw [modify, Option.bind_some, hv, Option.map_some]

theorem free_some (h : c.Live o) :
    c.free (some o) = some { c with objects := c.objects.set o none, freed := c.freed ++ [o] } := by
  obtain ⟨v, hv⟩ := Option.isSome_iff_exists.mp h
  rw [free, Option.bind_some, hv, Option.map_some]

/-- An object is set to what it holds, or freed. -/
theorem live_set {x : Option α} {q : Nat} {fr : List Nat} (h : c.Live q) :
    ({ c with objects := c.objects.set q x, freed := fr } : KmemCache α).Live o ↔
      (o = q ∧ x.isSome) ∨ (o ≠ q ∧ c.Live o) := by
  unfold Live get
  simp only
  by_cases heq : o = q
  · rw [heq, List.getElem?_set_self h.lt]
    simp
  · rw [List.getElem?_set_ne (Ne.symm heq)]
    simp [heq]

/-- A write leaves all objects as they are otherwise. -/
theorem Inv.modify (h : c.Inv) (hm : c.modify (some o) f = some c') :
    c'.Inv ∧ c'.calls = c.calls ∧ ∀ q, c'.Live q ↔ c.Live q := by
  obtain ⟨v, hv, rfl⟩ := Option.map_eq_some_iff.mp hm
  have hlive : c.Live o := Option.isSome_iff_exists.mpr ⟨v, hv⟩
  have hsame : ∀ q, ({ c with objects := c.objects.set o (some (f v)) } : KmemCache α).Live q ↔
      c.Live q := by
    intro q
    refine (live_set hlive).trans ?_
    by_cases heq : q = o
    · exact iff_of_true (Or.inl ⟨heq, rfl⟩) (heq ▸ hlive)
    · exact (or_iff_right fun hq => heq hq.1).trans (and_iff_right heq)
  refine ⟨⟨h.nodup, fun q => ?_⟩, rfl, hsame⟩
  rw [hsame, List.length_set]
  exact h.freed q

/-- An object that is freed is no longer live, all others stay as they are. -/
theorem Inv.free (h : c.Inv) (hf : c.free (some o) = some c') :
    c'.Inv ∧ c'.calls = c.calls ∧ ∀ q, c'.Live q ↔ q ≠ o ∧ c.Live q := by
  obtain ⟨v, hv, rfl⟩ := Option.map_eq_some_iff.mp hf
  have hlive : c.Live o := Option.isSome_iff_exists.mpr ⟨v, hv⟩
  have hrest : ∀ q, ({ c with objects := c.objects.set o none, freed := c.freed ++ [o] } :
      KmemCache α).Live q ↔ q ≠ o ∧ c.Live q := by
    exact fun q => (live_set hlive).trans (or_iff_right fun hq => by cases hq.2)
  refine ⟨⟨?_, fun q => ?_⟩, rfl, hrest⟩
  · rw [List.nodup_append]
    refine ⟨h.nodup, List.nodup_singleton o, ?_⟩
    rintro x hx y hy rfl
    obtain rfl := List.mem_singleton.mp hy
    exact ((h.freed x).mp hx).2 hlive
  · rw [hrest, List.length_set, List.mem_append, List.mem_singleton, h.freed]
    by_cases heq : q = o
    · exact iff_of_true (Or.inr heq) ⟨heq ▸ hlive.lt, fun hq => hq.1 heq⟩
    · simp only [heq, or_false, ne_eq, not_false_eq_true, true_and]

/-! ## Ownership -/

/-- The live objects are those that some pointers point to, each from one place. -/
structure Owns (c : KmemCache α) (ptrs : List (Option Nat)) : Prop where
  inv : c.Inv
  live : ∀ o, c.Live o ↔ some o ∈ ptrs
  once : ∀ (i j o : Nat), ptrs[i]? = some (some o) → ptrs[j]? = some (some o) → i = j

variable {ptrs : List (Option Nat)} {i : Nat}

theorem Owns.live_at (h : c.Owns ptrs) (hi : ptrs[i]? = some (some o)) : c.Live o :=
  (h.live o).mpr (List.mem_of_getElem? hi)

/-- Where the pointers lead when one of them is set. -/
theorem getElem?_set_iff (hlt : i < ptrs.length) (p : Option Nat) (j o : Nat) :
    (ptrs.set i p)[j]? = some (some o) ↔ (j = i ∧ p = some o) ∨ (j ≠ i ∧ ptrs[j]? = some (some o)) := by
  by_cases heq : j = i
  · rw [heq, List.getElem?_set_self hlt]
    simp
  · rw [List.getElem?_set_ne (Ne.symm heq)]
    simp [heq]

theorem exists_getElem?_set_iff (hlt : i < ptrs.length) (p : Option Nat) (j : Nat) :
    (∃ o, (ptrs.set i p)[j]? = some (some o)) ↔
      (j = i ∧ p.isSome) ∨ (j ≠ i ∧ ∃ o, ptrs[j]? = some (some o)) := by
  simp only [getElem?_set_iff hlt, exists_or, exists_and_left, Option.isSome_iff_exists]

/-- A null pointer that takes the result of an allocation. -/
theorem Owns.alloc (h : c.Owns ptrs) (a : Allocator α) (hi : ptrs[i]? = some none) :
    (c.alloc a).2.Owns (ptrs.set i (c.alloc a).1) := by
  have hlt := (List.getElem?_eq_some_iff.mp hi).1
  cases hf : a.fails c.calls with
  | true =>
    have hsame : ptrs.set i none = ptrs := by
      rw [← (List.getElem?_eq_some_iff.mp hi).2, List.set_getElem_self]
    have hinv := h.inv.alloc a
    rw [alloc_fails hf] at hinv ⊢
    simp only [hsame]
    exact ⟨hinv, h.live, h.once⟩
  | false =>
    have hinv := h.inv.alloc a
    rw [alloc_succeeds hf] at hinv ⊢
    simp only at hinv ⊢
    have hnew : ∀ j, ptrs[j]? ≠ some (some c.objects.length) := fun j hj =>
      Nat.lt_irrefl _ (h.live_at hj).lt
    refine ⟨hinv, fun o => ?_, fun j k o hj hk => ?_⟩
    · rw [live_append, h.live, List.mem_iff_getElem?, List.mem_iff_getElem?]
      simp only [getElem?_set_iff hlt]
      constructor
      · rintro (⟨j, hj⟩ | rfl)
        · refine ⟨j, Or.inr ⟨?_, hj⟩⟩
          rintro rfl
          rw [hi] at hj
          cases hj
        · exact ⟨i, Or.inl ⟨rfl, rfl⟩⟩
      · rintro ⟨j, ⟨-, ho⟩ | ⟨-, hj⟩⟩
        · exact Or.inr (Option.some.inj ho).symm
        · exact Or.inl ⟨j, hj⟩
    · rw [getElem?_set_iff hlt] at hj hk
      rcases hj with ⟨rfl, hj⟩ | ⟨-, hj⟩
      · rcases hk with ⟨rfl, -⟩ | ⟨-, hk⟩
        · rfl
        · cases hj
          exact absurd hk (hnew k)
      · rcases hk with ⟨rfl, hk⟩ | ⟨-, hk⟩
        · cases hk
          exact absurd hj (hnew j)
        · exact h.once j k o hj hk

theorem Owns.modify (h : c.Owns ptrs) (hi : ptrs[i]? = some (some o)) (f : α → α) :
    ∃ c', c.modify (some o) f = some c' ∧ c'.calls = c.calls ∧ c'.Owns ptrs := by
  obtain ⟨v, -, hm⟩ := modify_some (h.live_at hi) f
  obtain ⟨hinv, hcalls, hlive⟩ := h.inv.modify hm
  exact ⟨_, hm, hcalls, hinv, fun q => (hlive q).trans (h.live q), h.once⟩

/-- A pointer that is reset when its object is freed. -/
theorem Owns.free (h : c.Owns ptrs) (hi : ptrs[i]? = some (some o)) :
    ∃ c', c.free (some o) = some c' ∧ c'.calls = c.calls ∧ c'.Owns (ptrs.set i none) := by
  have hlt := (List.getElem?_eq_some_iff.mp hi).1
  have hf := free_some (h.live_at hi)
  obtain ⟨hinv, hcalls, hlive⟩ := h.inv.free hf
  have hset : ∀ j q : Nat, (ptrs.set i none)[j]? = some (some q) ↔ q ≠ o ∧ ptrs[j]? = some (some q) := by
    intro j q
    rw [getElem?_set_iff hlt, or_iff_right fun hn => by cases hn.2]
    refine and_congr_left fun hj => not_congr ⟨?_, ?_⟩
    · rintro rfl
      exact Option.some.inj (Option.some.inj (hj.symm.trans hi))
    · rintro rfl
      exact h.once j i q hj hi
  refine ⟨_, hf, hcalls, hinv, fun q => ?_, fun j k q hj hk => ?_⟩
  · rw [hlive, h.live, List.mem_iff_getElem?, List.mem_iff_getElem?, ← exists_and_left]
    exact (exists_congr fun j => hset j q).symm
  · exact h.once j k q ((hset j q).mp hj).2 ((hset k q).mp hk).2

/-- The first of some pointers goes away when it is null. -/
theorem Owns.tail (h : c.Owns (none :: ptrs)) : c.Owns ptrs := by
  refine ⟨h.inv, fun o => (h.live o).trans ?_, fun i j o hi hj => ?_⟩
  · exact (List.mem_cons.trans (or_iff_right fun heq => by cases heq))
  · exact Nat.succ.inj (h.once (i + 1) (j + 1) o hi hj)

theorem Owns.allFreedOnce (h : c.Owns []) : c.AllFreedOnce :=
  h.inv.allFreedOnce fun o hlive => List.not_mem_nil ((h.live o).mp hlive)

end KmemCache

end Slab
