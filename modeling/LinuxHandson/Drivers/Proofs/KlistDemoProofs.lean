import LinuxHandson.Drivers.KlistDemo

/-!
# The list of cities is a list

Each call does to the ring of entries what it does to a list of cities, comes to its end, and touches
only what is allocated; what is allocated are the entries of the list.
-/

namespace KlistDemo

open CLib KernelList KernelList.Heap

variable {h h' : CityList} {q q₁ q₂ : List Nat} {xs xs₁ xs₂ : List City}

/-- The link to the first of some entries. -/
def firstOf (q : List Nat) : Link Nat := (q.head?).elim .head .entry

/-- The entries `q` hold `xs`, and nothing else is allocated. -/
structure Owns (h : CityList) (q : List Nat) (xs : List City) : Prop where
  ring : h.Ring q
  vals : q.map h.val = xs.map some
  only : ∀ a, (h.val a).isSome → a ∈ q

theorem owns_empty : Owns .empty [] [] := ⟨ring_empty, rfl, nofun⟩

theorem Owns.nextHead (ho : Owns h q xs) : h.next .head = some (firstOf q) := by
  have hp := ho.ring.path
  cases q with
  | nil => exact hp.1
  | cons a q => exact hp.1

theorem Owns.next (ho : Owns h (q₁ ++ a :: q₂) xs) : h.next (.entry a) = some (firstOf q₂) :=
  ho.ring.links.2.2.1

/-- The first of the entries that hold the rest of the values. -/
theorem val_of_map {a : Nat} (hv : (a :: q).map h.val = xs.map some) :
    ∃ c xs', xs = c :: xs' ∧ h.val a = some c ∧ q.map h.val = xs'.map some := by
  cases xs with
  | nil => cases hv
  | cons c xs' =>
    obtain ⟨h1, h2⟩ := List.cons.inj hv
    exact ⟨c, xs', rfl, h1, h2⟩

theorem Owns.isSome (ho : Owns h q xs) {a : Nat} (ha : a ∈ q) : (h.val a).isSome := by
  have hmem : h.val a ∈ q.map h.val := List.mem_map_of_mem ha
  rw [ho.vals] at hmem
  obtain ⟨c, -, hc⟩ := List.mem_map.mp hmem
  rw [← hc]
  rfl

/-- The values of entries that are not the one that changes. -/
theorem map_val_update {a : Nat} {o : Option City} (ha : a ∉ q)
    (hv : h'.val = Function.update h.val a o) : q.map h'.val = q.map h.val := by
  refine List.map_congr_left fun b hb => ?_
  have hne : b ≠ a := by
    rintro rfl
    exact ha hb
  rw [hv, Function.update_of_ne hne]

/-! ## One call -/

theorem Owns.add (ho : Owns h q xs) {a : Nat} (ha : h.val a = none) (name : CStr) (population : Int) :
    ∃ h', addCity (some a) name population h = some h' ∧ Owns h' (q ++ [a]) (xs ++ [city name population]) := by
  have haq : a ∉ q := by
    intro hm
    have := ho.isSome hm
    rw [ha] at this
    cases this
  obtain ⟨hr, hv⟩ := alloc_spec ho.ring haq (city name population)
  obtain ⟨h', hadd, hring, hval⟩ := addTail_spec hr haq (by rw [hv, Function.update_self]; rfl)
  rw [hv] at hval
  refine ⟨h', hadd, hring, ?_, ?_⟩
  · rw [List.map_append, List.map_append, map_val_update haq hval, ho.vals, List.map_singleton, hval,
      Function.update_self, List.map_singleton]
  · intro b hb
    rw [List.mem_append, List.mem_singleton]
    by_cases hba : b = a
    · exact .inr hba
    · rw [hval, Function.update_of_ne hba] at hb
      exact .inl (ho.only b hb)

theorem Owns.remove {a : Nat} (ho : Owns h (q₁ ++ a :: q₂) xs)
    (hv₁ : q₁.map h.val = xs₁.map some) (hv₂ : q₂.map h.val = xs₂.map some) :
    ∃ h', KlistDemo.remove h a = some h' ∧ Owns h' (q₁ ++ q₂) (xs₁ ++ xs₂) := by
  obtain ⟨h₁, hdel, hr₁, hval₁⟩ := del_spec ho.ring
  have haq : a ∉ q₁ ++ q₂ := by
    have hnd := ho.ring.nodup
    rw [List.nodup_middle] at hnd
    exact (List.nodup_cons.mp hnd).1
  have hsome : (h₁.val a).isSome := by
    rw [hval₁]
    exact ho.isSome (List.mem_append_right _ List.mem_cons_self)
  obtain ⟨h₂, hfree, hr₂, hval₂⟩ := free_spec hr₁ haq hsome
  rw [hval₁] at hval₂
  refine ⟨h₂, ?_, hr₂, ?_, ?_⟩
  · simp only [KlistDemo.remove, hdel, hfree, Option.bind_eq_bind, Option.bind_some]
  · rw [map_val_update haq hval₂, List.map_append, hv₁, hv₂, List.map_append]
  · intro b hb
    have hba : b ≠ a := by
      rintro rfl
      rw [hval₂, Function.update_self] at hb
      cases hb
    rw [hval₂, Function.update_of_ne hba] at hb
    have hmem := ho.only b hb
    rw [List.mem_append, List.mem_cons] at hmem
    rw [List.mem_append]
    rcases hmem with hm | rfl | hm
    · exact .inl hm
    · exact absurd rfl hba
    · exact .inr hm

/-! ## The loops -/

/-- What `list_for_each_entry_safe` reads ahead. -/
theorem Owns.nextFirst (ho : Owns h (q₁ ++ q₂) xs) :
    ∃ n, h.next (firstOf q₂) = some n ∧ (q₂ ≠ [] → n = firstOf q₂.tail) := by
  cases q₂ with
  | nil => exact ⟨_, ho.nextHead, fun hne => absurd rfl hne⟩
  | cons b q₂ => exact ⟨_, ho.next, fun _ => rfl⟩

theorem Owns.startSafe (ho : Owns h q xs) :
    ∃ tmp, KlistDemo.startSafe h = some (firstOf q, tmp) ∧ (q ≠ [] → tmp = firstOf q.tail) := by
  have ho' : Owns h ([] ++ q) xs := ho
  obtain ⟨n, hn, htail⟩ := ho'.nextFirst
  refine ⟨n, ?_, htail⟩
  simp only [KlistDemo.startSafe, ho.nextHead, hn, Option.bind_eq_bind, Option.bind_some]
  rfl

/-- The loop of `delete_city` from its current city on, when none before it has the name. -/
theorem delete_ends (name : CStr) (q₂ : List Nat) :
    ∀ (q₁ : List Nat) (xs₁ : List City) {xs₂ : List City} {tmp : Link Nat}, Owns h (q₁ ++ q₂) (xs₁ ++ xs₂) →
      q₁.map h.val = xs₁.map some → q₂.map h.val = xs₂.map some →
      (q₂ ≠ [] → tmp = firstOf q₂.tail) →
      ∃ h' q', Ends (deleteRound name) (h, firstOf q₂, tmp) (xs₂.any (·.name = name), h') ∧
        Owns h' q' (xs₁ ++ xs₂.eraseP (·.name = name)) := by
  induction q₂ with
  | nil =>
    intro q₁ xs₁ xs₂ tmp ho hv₁ hv₂ _
    obtain rfl : xs₂ = [] := List.map_eq_nil_iff.mp hv₂.symm
    exact ⟨h, q₁ ++ [], .done rfl, ho⟩
  | cons a q₂ ih =>
    intro q₁ xs₁ xs₂ tmp ho hv₁ hv₂ htmp
    obtain ⟨c, xs₂, rfl, hc, hv₂⟩ := val_of_map hv₂
    obtain rfl := htmp nofun
    by_cases hname : c.name = name
    · obtain ⟨h', hrem, ho'⟩ := ho.remove hv₁ hv₂
      refine ⟨h', q₁ ++ q₂, .done ?_, ?_⟩
      · show deleteRound name (h, .entry a, _) = _
        simp only [deleteRound, hc, if_pos (strcmp_eq_zero.mpr hname), hrem]
        rw [List.any_cons, decide_eq_true hname, Bool.true_or]
      · rw [List.eraseP_cons, decide_eq_true hname]
        exact ho'
    · have ho' : Owns h ((q₁ ++ [a]) ++ q₂) ((xs₁ ++ [c]) ++ xs₂) := by
        rw [List.append_assoc, List.append_assoc]
        exact ho
      obtain ⟨n, hn, htail⟩ := ho'.nextFirst
      have hv₁' : (q₁ ++ [a]).map h.val = (xs₁ ++ [c]).map some := by
        rw [List.map_append, List.map_append, hv₁, List.map_singleton, List.map_singleton, hc]
      obtain ⟨h', q', hends, hfin⟩ := ih _ _ ho' hv₁' hv₂ htail
      have hround : deleteRound name (h, .entry a, firstOf q₂) = .again (h, firstOf q₂, n) := by
        simp only [deleteRound, hc, if_neg fun h0 => hname (strcmp_eq_zero.mp h0), nextSafe, hn]
      refine ⟨h', q', .again hround ?_, ?_⟩
      · rw [List.any_cons, decide_eq_false hname, Bool.false_or]
        exact hends
      · rw [List.append_assoc, List.singleton_append] at hfin
        rw [List.eraseP_cons, decide_eq_false hname]
        exact hfin

/-- The loop of `free_all_cities` from its current city on, when all before it are freed. -/
theorem free_ends (q₂ : List Nat) :
    ∀ {h : CityList} {xs₂ : List City} {tmp : Link Nat}, Owns h q₂ xs₂ →
      (q₂ ≠ [] → tmp = firstOf q₂.tail) →
      ∃ h', Ends freeRound (h, firstOf q₂, tmp) h' ∧ Owns h' [] [] := by
  induction q₂ with
  | nil =>
    intro h xs₂ tmp ho _
    obtain rfl : xs₂ = [] := List.map_eq_nil_iff.mp ho.vals.symm
    exact ⟨h, .done rfl, ho⟩
  | cons a q₂ ih =>
    intro h xs₂ tmp ho htmp
    obtain ⟨c, xs₂, rfl, hc, hv₂⟩ := val_of_map ho.vals
    obtain rfl := htmp nofun
    have ho' : Owns h ([] ++ a :: q₂) (c :: xs₂) := ho
    obtain ⟨h₁, hrem, ho₁⟩ := ho'.remove (show ([] : List Nat).map h.val = ([] : List City).map some from rfl) hv₂
    have ho₁' : Owns h₁ ([] ++ q₂) ([] ++ xs₂) := ho₁
    obtain ⟨n, hn, htail⟩ := ho₁'.nextFirst
    obtain ⟨h', hends, hfin⟩ := ih ho₁ htail
    refine ⟨h', .again ?_ hends, hfin⟩
    show freeRound (h, .entry a, firstOf q₂) = _
    simp only [freeRound, hrem, nextSafe, hn]

/-- The loop of `print_cities` from its current city on. -/
theorem print_ends (q₂ : List Nat) :
    ∀ (q₁ : List Nat) (xs₁ : List City) {xs₂ : List City}, Owns h (q₁ ++ q₂) xs →
      q₂.map h.val = xs₂.map some →
      Ends (printRound h) (firstOf q₂, xs₁) (xs₁ ++ xs₂) := by
  induction q₂ with
  | nil =>
    intro q₁ xs₁ xs₂ _ hv₂
    obtain rfl : xs₂ = [] := List.map_eq_nil_iff.mp hv₂.symm
    rw [List.append_nil]
    exact .done rfl
  | cons a q₂ ih =>
    intro q₁ xs₁ xs₂ ho hv₂
    obtain ⟨c, xs₂, rfl, hc, hv₂⟩ := val_of_map hv₂
    have ho' : Owns h ((q₁ ++ [a]) ++ q₂) xs := by
      rw [List.append_assoc]
      exact ho
    have hrest := ih _ (xs₁ ++ [c]) ho' hv₂
    rw [List.append_assoc, List.singleton_append] at hrest
    refine .again ?_ hrest
    show printRound h (.entry a, xs₁) = _
    simp only [printRound, hc, ho.next]

theorem count_ends (q₂ : List Nat) :
    ∀ (q₁ : List Nat) (n : Nat), Owns h (q₁ ++ q₂) xs →
      Ends (countRound h) (firstOf q₂, n) (n + q₂.length) := by
  induction q₂ with
  | nil =>
    intro q₁ n _
    exact .done rfl
  | cons a q₂ ih =>
    intro q₁ n ho
    have ho' : Owns h ((q₁ ++ [a]) ++ q₂) xs := by
      rw [List.append_assoc]
      exact ho
    have hrest := ih _ (n + 1) ho'
    rw [List.length_cons, Nat.add_comm q₂.length 1, ← Nat.add_assoc]
    refine .again ?_ hrest
    show countRound h (.entry a, n) = _
    simp only [countRound, ho.next]

/-! ## Calls -/

theorem Owns.length (ho : Owns h q xs) : q.length = xs.length := by
  have := congrArg List.length ho.vals
  rwa [List.length_map, List.length_map] at this

/-- A call that comes to its end has done what it does to a list of cities. -/
theorem Does.owns {c : Call} {o : Output} (hd : Does h c o h') (ho : Owns h q xs) :
    o = (spec xs c).1 ∧ ∃ q', Owns h' q' (spec xs c).2 := by
  have ho₀ : Owns h ([] ++ q) xs := ho
  cases hd with
  | @addCity _ addr name population hfresh hadd =>
    refine ⟨rfl, ?_⟩
    cases addr with
    | none =>
      cases hadd
      exact ⟨q, ho⟩
    | some a =>
      obtain ⟨h₁, hadd₁, ho₁⟩ := ho.add (hfresh a rfl) name population
      rw [hadd] at hadd₁
      cases hadd₁
      exact ⟨q ++ [a], ho₁⟩
  | printCities hc hends =>
    rw [ho.nextHead] at hc
    cases hc
    have hcs := hends.unique (print_ends q [] [] ho₀ ho.vals)
    exact ⟨congrArg Output.cities hcs, q, ho⟩
  | @deleteCity _ name c tmp found hc hends =>
    obtain ⟨tmp', hstart, htail⟩ := ho.startSafe
    rw [hstart] at hc
    cases hc
    obtain ⟨h₁, q', hends₁, ho₁⟩ := delete_ends name q [] [] ho rfl ho.vals htail
    cases hends.unique hends₁
    exact ⟨rfl, q', ho₁⟩
  | listEmpty hc =>
    rw [ho.nextHead] at hc
    cases hc
    refine ⟨congrArg Output.empty ?_, q, ho⟩
    have hlen := ho.length
    cases q with
    | nil =>
      obtain rfl : xs = [] := List.eq_nil_of_length_eq_zero hlen.symm
      rfl
    | cons a q =>
      cases xs with
      | nil => cases hlen
      | cons x xs => rfl
  | count hc hends =>
    rw [ho.nextHead] at hc
    cases hc
    have hn := hends.unique (count_ends q [] 0 ho₀)
    rw [Nat.zero_add, ho.length] at hn
    exact ⟨congrArg Output.count hn, q, ho⟩
  | freeAllCities hc hends =>
    obtain ⟨tmp', hstart, htail⟩ := ho.startSafe
    rw [hstart] at hc
    cases hc
    obtain ⟨h₁, hends₁, ho₁⟩ := free_ends q ho htail
    cases hends.unique hends₁
    exact ⟨rfl, [], ho₁⟩

/-- A call that the allocator can make comes to its end. -/
theorem Owns.does (ho : Owns h q xs) {c : Call} (hc : c.Fresh h) : ∃ o h', Does h c o h' := by
  have ho₀ : Owns h ([] ++ q) xs := ho
  obtain ⟨tmp, hstart, htail⟩ := ho.startSafe
  cases c with
  | addCity addr name population =>
    cases addr with
    | none => exact ⟨_, h, .addCity nofun rfl⟩
    | some a =>
      obtain ⟨h', hadd, -⟩ := ho.add (hc a rfl) name population
      exact ⟨_, h', .addCity hc hadd⟩
  | printCities => exact ⟨_, h, .printCities ho.nextHead (print_ends q [] [] ho₀ ho.vals)⟩
  | deleteCity name =>
    obtain ⟨h', -, hends, -⟩ := delete_ends name q [] [] ho rfl ho.vals htail
    exact ⟨_, h', .deleteCity hstart hends⟩
  | listEmpty => exact ⟨_, h, .listEmpty ho.nextHead⟩
  | count => exact ⟨_, h, .count ho.nextHead (count_ends q [] 0 ho₀)⟩
  | freeAllCities =>
    obtain ⟨h', hends, -⟩ := free_ends q ho htail
    exact ⟨_, h', .freeAllCities hstart hends⟩

theorem Runs.owns {cs : List Call} {os : List Output} (hr : Runs h cs os h') (ho : Owns h q xs) :
    os = (Machine.specRun spec xs cs).1 ∧ ∃ q', Owns h' q' (Machine.specRun spec xs cs).2 := by
  induction hr generalizing q xs with
  | nil => exact ⟨rfl, q, ho⟩
  | cons hc hcs ih =>
    obtain ⟨rfl, q₁, ho₁⟩ := hc.owns ho
    obtain ⟨rfl, q', ho'⟩ := ih ho₁
    exact ⟨rfl, q', ho'⟩

/-- However `kmalloc` reuses addresses, the calls do to the ring of entries what they do to a list of
cities, and what is allocated are the entries of that list, so that nothing is allocated after
`free_all_cities`. Every further call comes to its end, without an access to what was freed. -/
theorem klist_refines_list {cs : List Call} {os : List Output} (hr : Runs .empty cs os h) :
    os = (Machine.specRun spec [] cs).1 ∧ h.Holds (Machine.specRun spec [] cs).2 ∧
      ∀ c : Call, c.Fresh h → ∃ o h', Does h c o h' := by
  obtain ⟨hos, q, ho⟩ := hr.owns owns_empty
  exact ⟨hos, ⟨q, ho.ring, ho.vals, ho.only⟩, fun c hc => ho.does hc⟩

/-- A city is deleted, and the next one gets its address. -/
def reused : List Call :=
  [.addCity (some 7) ⟨[0x55, 0x6C, 0x6D], by decide⟩ 19, .deleteCity ⟨[0x55, 0x6C, 0x6D], by decide⟩,
    .addCity (some 7) ⟨[0x42, 0x72, 0x6E], by decide⟩ 20, .count]

theorem klist_refines_list_reused : ∃ os h, Runs .empty reused os h ∧
    os = [.none, .deleted true, .none, .count 1] ∧
    os = (Machine.specRun spec [] reused).1 ∧ h.Holds (Machine.specRun spec [] reused).2 ∧
      ∀ c : Call, c.Fresh h → ∃ o h', Does h c o h' := by
  have hrun : ∃ h, Runs .empty reused [.none, .deleted true, .none, .count 1] h := by
    exact ⟨_, .cons (.addCity (fun a ha => by cases ha; rfl) rfl) <|
      .cons (.deleteCity rfl ⟨1, rfl⟩) <|
      .cons (.addCity (fun a ha => by cases ha; rfl) rfl) <|
      .cons (.count rfl ⟨2, rfl⟩) .nil⟩
  obtain ⟨h, hrun⟩ := hrun
  exact ⟨_, h, hrun, rfl, klist_refines_list hrun⟩

end KlistDemo
