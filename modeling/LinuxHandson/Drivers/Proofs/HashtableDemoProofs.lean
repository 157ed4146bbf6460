import LinuxHandson.Drivers.HashtableDemo

/-!
# Records of one id

The table keeps every record that is added. Those of one id form a stack: `find_student` returns the
top one, and `remove_student` takes it off.
-/

namespace HashtableDemo

open CLib HashTable

variable {hash : Int → Fin 16} {t : StudentTable} {m : StudentStacks} {id : Int}

/-! ## What the functions do to the stacks -/

theorem findStudent_eq (id : Int) (t : StudentTable) :
    findStudent hash id t = (stack Student.id hash t id).head? :=
  firstPossible_node t id

theorem stack_addStudent (allocated : Bool) (name : CStr) (grade : Int) (j : Int) :
    stack Student.id hash (addStudent hash allocated id name grade t) j =
      if allocated = true ∧ j = id then student id name grade :: stack Student.id hash t j
      else stack Student.id hash t j := by
  unfold addStudent
  cases allocated with
  | false => simp
  | true =>
    have hkey : (student id name grade).id = id := rfl
    rw [if_pos rfl, stack_hashAdd t hkey j]
    simp

theorem stack_removeStudent (id : Int) (t : StudentTable) (j : Int) :
    stack Student.id hash (removeStudent hash id t) j =
      if j = id then (stack Student.id hash t j).tail else stack Student.id hash t j := by
  unfold removeStudent
  split
  · next hnone =>
    -- nothing to remove: the stack is empty
    have hempty : stack Student.id hash t id = [] := by
      rw [← List.head?_eq_none_iff, ← findStudent_eq, findStudent, hnone]
      rfl
    split
    · next hj =>
      rw [hj, hempty]
      rfl
    · rfl
  · next i hi => exact stack_hashDel hi j

/-! ## The table as stacks -/

/-- The stacks are those of the table. -/
def Stacks (hash : Int → Fin 16) (t : StudentTable) (m : StudentStacks) : Prop :=
  ∀ id, stack Student.id hash t id = m id

/-- A call on the table is the call on its stacks. -/
theorem step_stacks (h : Stacks hash t m) (c : Call) :
    ∃ t', step hash t c = some ((stackStep m c).1, t') ∧ Stacks hash t' (stackStep m c).2 := by
  cases c with
  | add allocated id name grade =>
    refine ⟨_, rfl, ?_⟩
    intro j
    rw [stack_addStudent, h j]
    cases allocated with
    | false => simp [stackStep]
    | true =>
      by_cases hj : j = id
      · subst hj
        simp [stackStep]
      · simp [stackStep, hj]
  | find id =>
    refine ⟨t, ?_, h⟩
    rw [stackStep, ← h id, ← findStudent_eq]
    rfl
  | remove id =>
    refine ⟨_, rfl, ?_⟩
    intro j
    rw [stack_removeStudent, h j]
    by_cases hj : j = id
    · subst hj
      simp [stackStep]
    · simp [stackStep, hj]

/-- Whatever the ids, the hash function and the order of the calls: `find_student` returns the record
that was added last under its id and has not been taken off, each `remove_student` taking off the last
one that is there. -/
theorem find_returns_top (hash : Int → Fin 16) (calls : List Call) :
    ∃ t, Machine.exec (step hash) empty calls =
      some ((Machine.specRun stackStep (fun _ => []) calls).1, t) := by
  have hstart : Stacks hash empty fun _ => [] := fun id => stack_empty id
  have hstep : ∀ t m c, Stacks hash t m → True →
      ∃ t', step hash t c = some ((stackStep m c).1, t') ∧ Stacks hash t' (stackStep m c).2 :=
    fun _ _ c h _ => step_stacks h c
  obtain ⟨t, hexec, -⟩ := Machine.Legal.sim hstep calls empty (fun _ => []) hstart
    (Machine.legal_true calls empty)
  exact ⟨t, hexec⟩

/-- Two records under one id, of which one is removed. -/
def addedTwice : List Call :=
  [.add true 7 (.ofBuf (CStr.ascii ['A', 'n', 'n'])) 90,
    .add true 7 (.ofBuf (CStr.ascii ['B', 'e', 'n'])) 80, .remove 7, .find 7]

/-- After its removal the id is found: the older record is still there. -/
theorem removed_id_found :
    (Machine.exec (step hashMin) empty addedTwice).map Prod.fst =
        some [none, none, none, some (student 7 (.ofBuf (CStr.ascii ['A', 'n', 'n'])) 90)] ∧
      (Machine.exec (step hashMin) empty addedTwice).map Prod.fst ≠
        some (Machine.specRun mapStep (fun _ => none) addedTwice).1 := by
  exact ⟨by decide, by decide⟩

/-! ## The table as a map -/

theorem isMap_iff_head {s : StudentTable × StudentMap} :
    IsMap hash s ↔ ∀ id, (stack Student.id hash s.1 id).head? = s.2 id :=
  forall_congr' fun id => by rw [findStudent_eq]

/-- A call that removes no more than one record keeps the table a map. -/
theorem IsMap.step {s s' : StudentTable × StudentMap} {c : Call} {r : Option Student}
    (h : IsMap hash s) (hc : RemovesLast hash s c) (hs : stepBoth hash s c = some (r, s')) :
    IsMap hash s' := by
  rw [isMap_iff_head] at h ⊢
  intro j
  cases c with
  | add allocated id name grade =>
    cases hs
    show (stack Student.id hash (addStudent hash allocated id name grade s.1) j).head? = _
    rw [stack_addStudent]
    cases allocated with
    | false => simpa [mapStep] using h j
    | true =>
      by_cases hj : j = id
      · subst hj
        simp [mapStep]
      · simpa [mapStep, hj] using h j
  | find id =>
    cases hs
    exact h j
  | remove id =>
    cases hs
    show (stack Student.id hash (removeStudent hash id s.1) j).head? = _
    rw [stack_removeStudent]
    by_cases hj : j = id
    · subst hj
      have hnil : (stack Student.id hash s.1 j).tail = [] := by
        have := hc j rfl
        exact List.eq_nil_of_length_eq_zero (by rw [List.length_tail]; omega)
      simp [mapStep, hnil]
    · simpa [mapStep, hj] using h j

/-- A removal after which the id is not found has removed its only record. -/
theorem removesLast_of_isMap {s : StudentTable × StudentMap} {c : Call}
    (h : ∀ r s', stepBoth hash s c = some (r, s') → IsMap hash s') : RemovesLast hash s c := by
  rintro id rfl
  have hid := isMap_iff_head.mp (h _ _ rfl) id
  have htail : (stack Student.id hash s.1 id).tail = [] := by
    rw [← List.head?_eq_none_iff]
    have hnone : (stack Student.id hash (removeStudent hash id s.1) id).head? =
        Function.update s.2 id none id := hid
    rw [stack_removeStudent, if_pos rfl, Function.update_self] at hnone
    exact hnone
  have := congrArg List.length htail
  rw [List.length_tail, List.length_nil] at this
  omega

/-- The table is a finite map from ids to records exactly as long as no `remove_student` finds two
records with its id. -/
theorem isMap_iff (hash : Int → Fin 16) (calls : List Call) :
    Machine.Always (stepBoth hash) (IsMap hash) (empty, fun _ => none) calls ↔
      Machine.Legal (stepBoth hash) (RemovesLast hash) (empty, fun _ => none) calls := by
  refine Machine.always_iff_legal (fun s h => h) (fun s c r s' h hc hs => h.step hc hs)
    (fun s c _ h => removesLast_of_isMap h) calls (empty, fun _ => none) ?_
  intro id
  rfl

end HashtableDemo
