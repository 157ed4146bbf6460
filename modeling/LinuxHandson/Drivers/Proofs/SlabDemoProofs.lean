import LinuxHandson.Drivers.SlabDemo

/-!
# Failed allocations

The array owns the objects of the cache all along. Which of its pointers are not `NULL` after each loop
says whether the next step is defined.
-/

namespace SlabDemo

open CLib Slab

variable {a : Allocator MyObject} {jiffies : Nat → UInt64} {s s' : State} {n i k : Nat}
  {P Q : Nat → Prop}

/-! ## One entry of the array -/

/-- The array of `n` pointers owns the objects, and those in `P` are not `NULL`. -/
structure Slots (s : State) (n : Nat) (P : Nat → Prop) : Prop where
  owns : s.myCache.Owns s.objects
  length : s.objects.length = n
  full : ∀ j, (∃ o, s.objects[j]? = some (some o)) ↔ P j

theorem ptr_natCast (s : State) (i : Nat) : s.ptr i = s.objects[i]? := if_pos (Int.natCast_nonneg i)

theorem Slots.congr (h : Slots s n P) (hPQ : ∀ j, P j ↔ Q j) : Slots s n Q :=
  ⟨h.owns, h.length, fun j => (h.full j).trans (hPQ j)⟩

theorem Slots.lt (h : Slots s n P) (hi : P i) : i < n := by
  obtain ⟨o, ho⟩ := (h.full i).mpr hi
  rw [← h.length]
  exact (List.getElem?_eq_some_iff.mp ho).1

/-- An entry that is not in `P` is `NULL`, or outside the array. -/
theorem Slots.ptr_none (h : Slots s n P) (hi : ¬ P i) :
    s.ptr i = if i < n then some none else none := by
  rw [ptr_natCast]
  split
  · next hlt =>
    rw [← h.length] at hlt
    cases hp : s.objects[i]? with
    | none => exact absurd (List.getElem?_eq_none_iff.mp hp) (Nat.not_le.mpr hlt)
    | some p =>
      cases p with
      | none => rfl
      | some o => exact absurd ((h.full i).mp ⟨o, hp⟩) hi
  · next hge => exact List.getElem?_eq_none (by rw [h.length]; omega)

theorem Slots.load_isSome (h : Slots s n P) (i : Nat) : (s.load i).isSome ↔ P i := by
  by_cases hi : P i
  · obtain ⟨o, ho⟩ := (h.full i).mpr hi
    rw [State.load, ptr_natCast, ho]
    exact iff_of_true (h.owns.live_at ho) hi
  · rw [State.load, h.ptr_none hi]
    refine iff_of_false ?_ hi
    split <;> exact Bool.false_ne_true

theorem Slots.modify (h : Slots s n P) (hi : P i) (f : MyObject → MyObject) :
    ∃ s', s.modify i f = some s' ∧ s'.myCache.calls = s.myCache.calls ∧ Slots s' n P := by
  obtain ⟨o, ho⟩ := (h.full i).mpr hi
  obtain ⟨c, hc, hcalls, howns⟩ := h.owns.modify ho f
  refine ⟨{ s with myCache := c }, ?_, hcalls, howns, h.length, h.full⟩
  rw [State.modify, ptr_natCast, ho, Option.bind_some, hc, Option.map_some]

theorem Slots.modify_none (h : Slots s n P) (hi : ¬ P i) (f : MyObject → MyObject) :
    s.modify i f = none := by
  rw [State.modify, h.ptr_none hi]
  split <;> rfl

theorem Slots.free (h : Slots s n P) (hi : P i) :
    ∃ s', s.free i = some s' ∧ s'.myCache.calls = s.myCache.calls ∧
      Slots s' n fun j => P j ∧ j ≠ i := by
  obtain ⟨o, ho⟩ := (h.full i).mpr hi
  obtain ⟨c, hc, hcalls, howns⟩ := h.owns.free ho
  refine ⟨⟨c, s.objects.set i none⟩, ?_, hcalls, howns, ?_, fun j => ?_⟩
  · rw [State.free, ptr_natCast, ho, Option.bind_some, hc, Option.map_some]
  · rw [List.length_set, h.length]
  · rw [KmemCache.exists_getElem?_set_iff (h.length ▸ h.lt hi), h.full,
      or_iff_right fun hj => Bool.false_ne_true hj.2, and_comm]

theorem Slots.free_none (h : Slots s n P) (hi : ¬ P i) : s.free i = none := by
  rw [State.free, h.ptr_none hi]
  split <;> rfl

/-- An allocation into an entry that is `NULL`. -/
theorem Slots.alloc (h : Slots s n P) (hlt : i < n) (hi : ¬ P i) (a : Allocator MyObject) :
    ∃ s', s.alloc a i = some s' ∧ s'.myCache.calls = s.myCache.calls + 1 ∧
      Slots s' n fun j => P j ∨ (j = i ∧ a.fails s.myCache.calls = false) := by
  have hlen : i < s.objects.length := by
    rw [h.length]
    exact hlt
  have hnull : s.objects[i]? = some none := by
    have hptr := h.ptr_none hi
    rwa [ptr_natCast, if_pos hlt] at hptr
  refine ⟨_, if_pos hlen, KmemCache.calls_alloc _ a, h.owns.alloc a hnull, ?_, fun j => ?_⟩
  · rw [List.length_set, h.length]
  · simp only
    rw [KmemCache.exists_getElem?_set_iff hlen, h.full, KmemCache.isSome_alloc, or_comm]
    refine or_congr_left (and_iff_right_of_imp fun hj heq => hi (heq ▸ hj))

/-! ## The loops -/

theorem le_successes_iff (fails : Nat → Bool) (c k m : Nat) :
    m ≤ successes fails c k ↔ m ≤ k ∧ ∀ j < m, fails (c + j) = false := by
  fun_induction successes fails c k generalizing m with
  | case1 c =>
    refine (and_iff_left_of_imp fun hm j hj => ?_).symm
    exact absurd (Nat.lt_of_lt_of_le hj hm) (Nat.not_lt_zero j)
  | case2 c k h =>
    constructor
    · intro hm
      obtain rfl := Nat.le_zero.mp hm
      exact ⟨Nat.zero_le _, fun j hj => absurd hj (Nat.not_lt_zero j)⟩
    · rintro ⟨-, hall⟩
      by_contra hm
      have hfirst := hall 0 (by omega)
      rw [Nat.add_zero, h] at hfirst
      cases hfirst
  | case3 c k h ih =>
    cases m with
    | zero => exact iff_of_true (Nat.zero_le _) ⟨Nat.zero_le _, fun j hj => absurd hj (Nat.not_lt_zero j)⟩
    | succ m =>
      rw [Nat.succ_le_succ_iff, ih m, Nat.succ_le_succ_iff]
      refine and_congr_right fun _ => ⟨fun hall j hj => ?_, fun hall j hj => ?_⟩
      · cases j with
        | zero => exact Bool.not_eq_true _ ▸ h
        | succ j =>
          rw [← Nat.add_assoc, Nat.add_right_comm]
          exact hall j (Nat.lt_of_succ_lt_succ hj)
      · rw [Nat.add_right_comm, Nat.add_assoc]
        exact hall (j + 1) (Nat.succ_lt_succ hj)

/-- The first loop fills the array up to the first allocation that fails. -/
theorem Slots.allocLoop (h : Slots s n (· < i)) (hk : i + k = n) (a : Allocator MyObject)
    (jiffies : Nat → UInt64) :
    ∃ s', allocLoop a jiffies k i s = some (i + successes a.fails s.myCache.calls k, s') ∧
      Slots s' n (· < i + successes a.fails s.myCache.calls k) ∧
      s'.myCache.calls = s.myCache.calls + min k (successes a.fails s.myCache.calls k + 1) := by
  induction k generalizing i s with
  | zero => exact ⟨s, rfl, h, by rw [Nat.zero_min, Nat.add_zero]⟩
  | succ k ih =>
    obtain ⟨s1, hs1, hcalls, h1⟩ := h.alloc (by omega) (Nat.lt_irrefl i) a
    rw [SlabDemo.allocLoop, hs1, Option.bind_some, successes]
    cases hf : a.fails s.myCache.calls with
    | true =>
      rw [hf] at h1
      have h1 : Slots s1 n (· < i) := h1.congr fun j => by simp
      rw [h1.ptr_none (Nat.lt_irrefl i), if_pos (by omega), Option.bind_some, if_pos rfl]
      exact ⟨s1, rfl, h1, by rw [hcalls]; omega⟩
    | false =>
      rw [hf] at h1
      have h1 : Slots s1 n (· < i + 1) := h1.congr fun j => by
        simp only [and_true]
        omega
      obtain ⟨o, ho⟩ := (h1.full i).mpr (Nat.lt_succ_self i)
      obtain ⟨s2, hs2, hcalls2, h2⟩ := h1.modify (Nat.lt_succ_self i) fun _ =>
        ⟨i, objName i, jiffies i⟩
      rw [ptr_natCast, ho, Option.bind_some]
      simp only [hs2, Option.bind_some, Bool.false_eq_true, if_false]
      have hnext := ih h2 (by omega)
      rw [hcalls2, hcalls] at hnext
      obtain ⟨s3, hs3, h3, hcalls3⟩ := hnext
      refine ⟨s3, ?_, h3.congr fun j => by omega, ?_⟩
      · rw [hs3]
        congr 2
        omega
      · rw [hcalls3]
        omega

/-- The second loop needs an object in every entry that it frees. -/
theorem Slots.freeLoop (h : Slots s n P) (hall : ∀ j, i ≤ j → j < i + k → P j) :
    ∃ s', freeLoop k i s = some s' ∧ s'.myCache.calls = s.myCache.calls ∧
      Slots s' n fun j => P j ∧ ¬ (i ≤ j ∧ j < i + k) := by
  induction k generalizing i s P with
  | zero =>
    refine ⟨s, rfl, rfl, h.congr fun j => (and_iff_left ?_).symm⟩
    omega
  | succ k ih =>
    obtain ⟨s1, hs1, hcalls, h1⟩ := h.free (hall i (Nat.le_refl i) (by omega))
    obtain ⟨s2, hs2, hcalls2, h2⟩ := ih (i := i + 1) h1 fun j hj hjk =>
      ⟨hall j (by omega) (by omega), by omega⟩
    refine ⟨s2, ?_, hcalls2.trans hcalls, h2.congr fun j => ?_⟩
    · rw [SlabDemo.freeLoop, hs1, Option.bind_some, hs2]
    · rw [and_assoc]
      refine and_congr_right fun _ => ?_
      omega

theorem Slots.of_freeLoop (h : Slots s n P) (hf : (SlabDemo.freeLoop k i s).isSome) :
    ∀ j, i ≤ j → j < i + k → P j := by
  induction k generalizing i s P with
  | zero =>
    intro j hj hjk
    omega
  | succ k ih =>
    by_cases hi : P i
    · obtain ⟨s1, hs1, -, h1⟩ := h.free hi
      rw [SlabDemo.freeLoop, hs1, Option.bind_some] at hf
      intro j hj hjk
      rcases Nat.eq_or_lt_of_le hj with rfl | hlt
      · exact hi
      · exact (ih h1 hf j hlt (by omega)).1
    · rw [SlabDemo.freeLoop, h.free_none hi] at hf
      cases hf

/-- The third loop needs all its allocations. -/
theorem Slots.reallocLoop (h : Slots s n P) (hnull : ∀ j, i ≤ j → j < i + k → ¬ P j) (hk : i + k ≤ n)
    (hall : ∀ j < k, a.fails (s.myCache.calls + j) = false) :
    ∃ s', reallocLoop a k i s = some s' ∧ s'.myCache.Owns s'.objects := by
  induction k generalizing i s P with
  | zero => exact ⟨s, rfl, h.owns⟩
  | succ k ih =>
    have hf := hall 0 (Nat.zero_lt_succ k)
    obtain ⟨s1, hs1, hcalls, h1⟩ := h.alloc (by omega) (hnull i (Nat.le_refl i) (by omega)) a
    rw [Nat.add_zero] at hf
    obtain ⟨s2, hs2, hcalls2, h2⟩ := h1.modify (Or.inr ⟨rfl, hf⟩) fun obj => { obj with id := i + 1000 }
    rw [SlabDemo.reallocLoop, hs1, Option.bind_some, hs2, Option.bind_some]
    refine ih h2 (fun j hj hjk => ?_) (by omega) fun j hj => ?_
    · rintro (hP | ⟨rfl, -⟩)
      · exact hnull j (by omega) (by omega) hP
      · omega
    · rw [hcalls2, hcalls, Nat.add_right_comm, Nat.add_assoc]
      exact hall (j + 1) (Nat.succ_lt_succ hj)

theorem Slots.of_reallocLoop (h : Slots s n P) (hnull : ∀ j, i ≤ j → j < i + k → ¬ P j)
    (hk : i + k ≤ n) (hr : (SlabDemo.reallocLoop a k i s).isSome) :
    ∀ j < k, a.fails (s.myCache.calls + j) = false := by
  induction k generalizing i s P with
  | zero =>
    intro j hj
    omega
  | succ k ih =>
    have hi := hnull i (Nat.le_refl i) (by omega)
    obtain ⟨s1, hs1, hcalls, h1⟩ := h.alloc (by omega) hi a
    rw [SlabDemo.reallocLoop, hs1, Option.bind_some] at hr
    cases hf : a.fails s.myCache.calls with
    | true =>
      rw [hf] at h1
      rw [h1.modify_none (by simp [hi])] at hr
      cases hr
    | false =>
      obtain ⟨s2, hs2, hcalls2, h2⟩ := h1.modify (Or.inr ⟨rfl, hf⟩) fun obj =>
        { obj with id := i + 1000 }
      rw [hs2, Option.bind_some] at hr
      have hrest := ih h2 (fun j hj hjk => ?_) (by omega) hr
      · intro j hj
        cases j with
        | zero => rwa [Nat.add_zero]
        | succ j =>
          have hnext := hrest j (Nat.lt_of_succ_lt_succ hj)
          rwa [hcalls2, hcalls, Nat.add_right_comm, Nat.add_assoc] at hnext
      · rintro (hP | ⟨rfl, -⟩)
        · exact hnull j (by omega) (by omega) hP
        · omega

/-- `slab_demo_exit` frees what the array owns. -/
theorem exitLoop_owns {c : KmemCache MyObject} {ptrs : List (Option Nat)} (h : c.Owns ptrs) :
    ∃ c', exitLoop ptrs c = some c' ∧ c'.AllFreedOnce := by
  induction ptrs generalizing c with
  | nil => exact ⟨c, rfl, h.allFreedOnce⟩
  | cons p ptrs ih =>
    cases p with
    | none => exact ih h.tail
    | some o =>
      obtain ⟨c1, hc1, -, h1⟩ := h.free (i := 0) rfl
      obtain ⟨c2, hc2, hfreed⟩ := ih (KmemCache.Owns.tail h1)
      refine ⟨c2, ?_, hfreed⟩
      rw [exitLoop, hc1, Option.bind_some, hc2]

/-! ## Loading and unloading -/

theorem slots_start (n : Nat) : Slots ⟨.create, List.replicate n none⟩ n (· < 0) := by
  have hnull : ∀ j o : Nat, (List.replicate n (none : Option Nat))[j]? ≠ some (some o) := by
    intro j o hj
    exact absurd (List.eq_of_mem_replicate (List.mem_of_getElem? hj)) (Option.some_ne_none o)
  refine ⟨⟨KmemCache.inv_create, fun o => ?_, fun i j o hi => absurd hi (hnull i o)⟩,
    List.length_replicate, fun j => ?_⟩
  · refine iff_of_false (fun hlive => absurd hlive.lt (Nat.not_lt_zero o)) fun hmem => ?_
    exact absurd (List.eq_of_mem_replicate hmem) (Option.some_ne_none o)
  · exact iff_of_false (fun ⟨o, ho⟩ => hnull j o ho) (Nat.not_lt_zero j)

theorem half_le_successes_iff (fails : Nat → Bool) (n : Nat) :
    n / 2 ≤ successes fails 0 n ↔ ∀ i < n / 2, fails i = false := by
  rw [le_successes_iff]
  simp only [Nat.zero_add]
  exact and_iff_right (Nat.div_le_self n 2)

theorem Slots.load_natCast_pred (h : Slots s n (· < i)) (hi : 0 < i) : (s.load (i - 1)).isSome := by
  have hcast : (i : Int) - 1 = ((i - 1 : Nat) : Int) := by omega
  rw [hcast, h.load_isSome]
  exact Nat.sub_lt hi Nat.zero_lt_one

theorem allocLoop_start (a : Allocator MyObject) (jiffies : Nat → UInt64) (n : Nat) :
    ∃ s, allocLoop a jiffies n 0 ⟨.create, List.replicate n none⟩ = some (successes a.fails 0 n, s) ∧
      Slots s n (· < successes a.fails 0 n) ∧
      s.myCache.calls = min n (successes a.fails 0 n + 1) := by
  obtain ⟨s, hs, h, hcalls⟩ := (slots_start n).allocLoop (Nat.zero_add n) a jiffies
  rw [KmemCache.create] at hs h hcalls
  simp only [Nat.zero_add] at hs h hcalls
  exact ⟨s, hs, h, hcalls⟩

/-- Where the allocations of the first half succeed, `slab_demo_init` goes through, and the array owns
the objects then. -/
theorem init_of_halfSucceeds (jiffies : Nat → UInt64) (hn : 2 ≤ n) (h : HalfSucceeds a.fails n) :
    ∃ s, slabDemoInit a jiffies n true = some (.ok s) ∧ s.myCache.Owns s.objects := by
  have hpos : 0 < n / 2 := Nat.div_pos hn Nat.zero_lt_two
  have hhalf := (half_le_successes_iff a.fails n).mpr h.1
  obtain ⟨s1, hs1, h1, hcalls⟩ := allocLoop_start a jiffies n
  obtain ⟨first, hfirst⟩ := Option.isSome_iff_exists.mp ((h1.load_isSome 0).mpr (by omega))
  obtain ⟨last, hlast⟩ := Option.isSome_iff_exists.mp (h1.load_natCast_pred (by omega))
  obtain ⟨s2, hs2, hcalls2, h2⟩ := h1.freeLoop (k := n / 2) (i := 0) fun j _ hj => by omega
  obtain ⟨s3, hs3, howns⟩ := h2.reallocLoop (a := a) (k := n / 2) (i := 0) (fun j _ hj hP => by omega)
    (by omega) fun j hj => by
      rw [hcalls2, hcalls]
      exact h.2 j hj
  refine ⟨s3, ?_, howns⟩
  rw [slabDemoInit, if_pos rfl, hs1, Option.bind_some]
  simp only
  rw [show (0 : Int) = (0 : Nat) from rfl, hfirst, Option.bind_some, hlast, Option.bind_some, hs2,
    Option.bind_some, hs3, Option.map_some]

/-- No other `slab_demo_init` goes through. -/
theorem halfSucceeds_of_init {r : Except Int State} (h : slabDemoInit a jiffies n true = some r) :
    HalfSucceeds a.fails n := by
  obtain ⟨s1, hs1, h1, hcalls⟩ := allocLoop_start a jiffies n
  rw [slabDemoInit, if_pos rfl, hs1, Option.bind_some] at h
  obtain ⟨first, -, h⟩ := Option.bind_eq_some_iff.mp h
  obtain ⟨last, -, h⟩ := Option.bind_eq_some_iff.mp h
  obtain ⟨s2, hs2, h⟩ := Option.bind_eq_some_iff.mp h
  obtain ⟨s3, hs3, -⟩ := Option.map_eq_some_iff.mp h
  have hfull := h1.of_freeLoop (Option.isSome_iff_exists.mpr ⟨s2, hs2⟩)
  obtain ⟨t, ht, hcalls2, h2⟩ := h1.freeLoop hfull
  obtain rfl : s2 = t := Option.some.inj (hs2.symm.trans ht)
  have hagain := h2.of_reallocLoop (fun j _ hj hP => by omega) (by omega)
    (Option.isSome_iff_exists.mpr ⟨s3, hs3⟩)
  refine ⟨(half_le_successes_iff a.fails n).mp ?_, ?_⟩
  · by_contra hlt
    have hlast := hfull (successes a.fails 0 n) (Nat.zero_le _) (by omega)
    exact Nat.lt_irrefl _ hlast
  · rwa [hcalls2, hcalls] at hagain

/-- The module loads and unloads without an undefined step, and frees every object once, if and only if
both allocations of each entry of the first half succeed, or the cache is not created. -/
theorem slab_clean_iff (a : Allocator MyObject) (jiffies : Nat → UInt64) {numObjects : Nat}
    (hn : 2 ≤ numObjects) (created : Bool) :
    Clean a jiffies numObjects created ↔ (created = true → HalfSucceeds a.fails numObjects) := by
  cases created with
  | false =>
    refine iff_of_true ⟨.error (-ENOMEM), rfl, fun s hs => by cases hs⟩ fun h => ?_
    cases h
  | true =>
    constructor
    · rintro ⟨r, hr, -⟩ -
      exact halfSucceeds_of_init hr
    · intro h
      obtain ⟨s, hs, howns⟩ := init_of_halfSucceeds jiffies hn (h rfl)
      refine ⟨.ok s, hs, fun t ht => ?_⟩
      cases ht
      exact exitLoop_owns howns

/-- An allocator that fails at some calls. -/
def failingAt (fails : Nat → Bool) : Allocator MyObject := ⟨fails, fun _ => ⟨0, objName 0, 0⟩⟩

/-- Four objects of which the last is not found. -/
theorem slab_clean_lastFails : Clean (failingAt (· == 3)) (fun _ => 0) 4 true :=
  (slab_clean_iff (failingAt (· == 3)) (fun _ => 0) (by decide) true).mpr fun _ => by
    refine ⟨?_, ?_⟩ <;> decide

/-- If the very first allocation of the 100 fails, `objects[0]` is `NULL` when it is printed. -/
theorem slab_first_fails : slabDemoInit (failingAt (· == 0)) (fun _ => 0) 100 true = none ∧
    ¬ Clean (failingAt (· == 0)) (fun _ => 0) 100 true := by
  have hinit : slabDemoInit (failingAt (· == 0)) (fun _ => 0) 100 true = none := by decide
  refine ⟨hinit, ?_⟩
  rintro ⟨r, hr, -⟩
  rw [hinit] at hr
  cases hr

end SlabDemo
