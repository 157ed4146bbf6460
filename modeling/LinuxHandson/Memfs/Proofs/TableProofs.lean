import LinuxHandson.Memfs.Memfs

/-!
# Proofs: what one call does to the table

`findEntry` and `allocEntry` are searches in a slot table. `Effect` says once what a call can do to
the names, kinds and used flags of the entries: nothing, one new entry in a free slot, or one entry
less. Every invariant of the namespace is derived from it.
-/

namespace Memfs

open CLib

/-- No two used entries have the same name. -/
abbrev NamesUnique (t : Table) : Prop := SlotTable.KeysUnique MemfsEntry.used MemfsEntry.name t

theorem findEntry_eq (t : Table) (p : CStr) :
    findEntry t p = SlotTable.find MemfsEntry.used MemfsEntry.name t p := by
  unfold findEntry SlotTable.find
  congr 1
  funext e
  rw [decide_eq_decide.mpr strcmp_eq_zero]

theorem findEntry_some {t : Table} {p : CStr} {i : Fin maxFiles} (h : findEntry t p = some i) :
    (t i).used = true ∧ (t i).name = p :=
  SlotTable.find_some (findEntry_eq t p ▸ h)

theorem findEntry_eq_none {t : Table} {p : CStr} :
    findEntry t p = none ↔ ∀ i, (t i).used = true → (t i).name ≠ p := by
  rw [findEntry_eq, SlotTable.find_eq_none]

theorem NamesUnique.findEntry_iff {t : Table} (hu : NamesUnique t) {p : CStr} {i : Fin maxFiles} :
    findEntry t p = some i ↔ (t i).used = true ∧ (t i).name = p := by
  rw [findEntry_eq]
  exact hu.find_eq

/-- The first slot that is not used. -/
def freeSlot (t : Table) : Option (Fin maxFiles) := SlotTable.first (fun e => !e.used) t

theorem freeSlot_some {t : Table} {i : Fin maxFiles} (h : freeSlot t = some i) :
    (t i).used = false := by
  simpa using SlotTable.first_some h

/-- The entry that `memfs_create` (`isDir = false`) or `memfs_mkdir` (`isDir = true`) makes. -/
def newEntry (env : Env) (path : CStr) (isDir : Bool) (mode : Nat) : MemfsEntry :=
  { MemfsEntry.zero with
    name := strncpy path maxNameLen, isDir := isDir, mode := mode &&& 0o777, uid := env.uid,
    gid := env.gid, used := true, atime := env.now, mtime := env.now, ctime := env.now }

/-- What `memfs_create` and `memfs_mkdir` share: an entry of the given kind in the first free slot. -/
def makeEntry (env : Env) (t : Table) (path : CStr) (isDir : Bool) (mode : Nat) : Int × Table :=
  match findEntry t path with
  | some _ => (-EEXIST, t)
  | none =>
    match freeSlot t with
    | none => (-ENOSPC, t)
    | some i => (0, Function.update t i (newEntry env path isDir mode))

theorem memfsCreate_eq (env : Env) (t : Table) (path : CStr) (mode : Nat) :
    memfsCreate env t path mode = makeEntry env t path false mode := by
  unfold memfsCreate makeEntry allocEntry freeSlot
  cases findEntry t path with
  | some _ => rfl
  | none =>
    cases SlotTable.first (fun e => !e.used) t with
    | none => rfl
    | some i => simp [newEntry, MemfsEntry.zero]

theorem memfsMkdir_eq (env : Env) (t : Table) (path : CStr) (mode : Nat) :
    memfsMkdir env t path mode = makeEntry env t path true mode := by
  unfold memfsMkdir makeEntry allocEntry freeSlot
  cases findEntry t path with
  | some _ => rfl
  | none =>
    cases SlotTable.first (fun e => !e.used) t with
    | none => rfl
    | some i => simp [newEntry, MemfsEntry.zero]

/-- The path that a call makes an entry for. -/
def Op.makes : Op → Option (CStr × Bool)
  | .create p _ => some (p, false)
  | .mkdir p _ => some (p, true)
  | _ => none

/-- The path whose entry a call removes. -/
def Op.removes : Op → Option CStr
  | .unlink p => some p
  | .rmdir p => some p
  | _ => none

/-- The two entries agree on what makes up the namespace. -/
def SameShape (e e' : MemfsEntry) : Prop :=
  e'.used = e.used ∧ e'.name = e.name ∧ e'.isDir = e.isDir

theorem SameShape.refl (e : MemfsEntry) : SameShape e e := ⟨rfl, rfl, rfl⟩

theorem sameShape_update {t : Table} {i : Fin maxFiles} {e : MemfsEntry} (h : SameShape (t i) e)
    (j : Fin maxFiles) : SameShape (t j) (Function.update t i e j) := by
  by_cases hj : j = i
  · subst hj
    rw [Function.update_self]
    exact h
  · rw [Function.update_of_ne hj]
    exact SameShape.refl _

/-- The table without the entry of slot `i`. -/
def dropEntry (t : Table) (i : Fin maxFiles) : Table :=
  Function.update t i { t i with used := false }

/-- What a call can do to the namespace. -/
inductive Effect (t : Table) (c : OpCall) (r : Reply) (t' : Table) : Prop where
  /-- Names, kinds and used flags stay as they are. -/
  | keep (h : ∀ i, SameShape (t i) (t' i)) (hm : c.op.makes ≠ none → r.ret ≠ 0)
      (hr : c.op.removes ≠ none → r.ret ≠ 0)
  /-- One new entry in the first free slot. -/
  | make (p : CStr) (d : Bool) (mode : Nat) (i : Fin maxFiles) (hop : c.op.makes = some (p, d))
      (hret : r.ret = 0) (hnew : findEntry t p = none) (hfree : freeSlot t = some i)
      (ht : t' = Function.update t i (newEntry c.env p d mode))
  /-- The entry of a path is gone. -/
  | remove (p : CStr) (i : Fin maxFiles) (hop : c.op.removes = some p) (hret : r.ret = 0)
      (hold : findEntry t p = some i)
      (hempty : (t i).isDir = true → ∀ j, rmdirBlocks t p i j = false)
      (ht : t' = dropEntry t i)

theorem makeEntry_effect {t : Table} {c : OpCall} {p : CStr} {d : Bool} (mode : Nat)
    (hop : c.op.makes = some (p, d)) (hr : c.op.removes = none) :
    Effect t c ⟨(makeEntry c.env t p d mode).1, .nothing⟩ (makeEntry c.env t p d mode).2 := by
  unfold makeEntry
  cases hf : findEntry t p with
  | some _ =>
    exact .keep (fun i => SameShape.refl _) (fun _ => EEXIST_ne) (fun h => absurd hr h)
  | none =>
    cases hs : freeSlot t with
    | none => exact .keep (fun i => SameShape.refl _) (fun _ => ENOSPC_ne) (fun h => absurd hr h)
    | some i => exact .make p d mode i hop rfl hf hs rfl

/-- A call that sets an entry to one of the same shape. -/
theorem sameShape_result {t t' : Table} {r r' : Int} {k : Fin maxFiles} {e : MemfsEntry}
    (h : some (r, Function.update t k e) = some (r', t')) (he : SameShape (t k) e) (i : Fin maxFiles) :
    SameShape (t i) (t' i) := by
  obtain ⟨-, rfl⟩ := Prod.mk.inj (Option.some.inj h)
  exact sameShape_update he i

theorem memfsWrite_shape {env : Env} {t t' : Table} {p : CStr} {buf : List UInt8} {off r : Int}
    (h : memfsWrite env t p buf off = some (r, t')) (i : Fin maxFiles) :
    SameShape (t i) (t' i) := by
  unfold memfsWrite at h
  cases hf : findEntry t p with
  | none =>
    simp only [hf, Option.some.injEq, Prod.mk.injEq] at h
    rw [← h.2]
    exact SameShape.refl _
  | some k =>
    simp only [hf] at h
    split at h
    · simp only [Option.some.injEq, Prod.mk.injEq] at h
      rw [← h.2]
      exact SameShape.refl _
    · split at h
      · split at h
        · exact sameShape_result h ⟨rfl, rfl, rfl⟩ i
        · simp only [Option.bind_eq_bind, Option.bind_eq_some_iff] at h
          obtain ⟨_, _, _, _, h⟩ := h
          exact sameShape_result h ⟨rfl, rfl, rfl⟩ i
      · simp only [Option.bind_eq_bind, Option.bind_eq_some_iff] at h
        obtain ⟨_, _, h⟩ := h
        exact sameShape_result h ⟨rfl, rfl, rfl⟩ i

theorem memfsTruncate_shape {env : Env} {t t' : Table} {p : CStr} {size r : Int}
    (h : memfsTruncate env t p size = some (r, t')) (i : Fin maxFiles) :
    SameShape (t i) (t' i) := by
  unfold memfsTruncate at h
  cases hf : findEntry t p with
  | none =>
    simp only [hf, Option.some.injEq, Prod.mk.injEq] at h
    rw [← h.2]
    exact SameShape.refl _
  | some k =>
    simp only [hf] at h
    split at h
    · simp only [Option.some.injEq, Prod.mk.injEq] at h
      rw [← h.2]
      exact SameShape.refl _
    · simp only [Option.bind_eq_bind, Option.bind_eq_some_iff] at h
      obtain ⟨_, _, h⟩ := h
      exact sameShape_result h ⟨rfl, rfl, rfl⟩ i

theorem memfsRead_shape {env : Env} {t t' : Table} {p : CStr} {size : Nat} {off r : Int}
    {bs : List UInt8} (h : memfsRead env t p size off = some (r, bs, t')) (i : Fin maxFiles) :
    SameShape (t i) (t' i) := by
  unfold memfsRead at h
  cases hf : findEntry t p with
  | none =>
    simp only [hf, Option.some.injEq, Prod.mk.injEq] at h
    rw [← h.2.2]
    exact SameShape.refl _
  | some k =>
    simp only [hf] at h
    split at h
    · simp only [Option.some.injEq, Prod.mk.injEq] at h
      rw [← h.2.2]
      exact SameShape.refl _
    · split at h
      · cases h
      · simp only [Option.some.injEq, Prod.mk.injEq] at h
        rw [← h.2.2]
        refine sameShape_update ?_ i
        exact ⟨rfl, rfl, rfl⟩

theorem memfsUnlink_none {t : Table} {p : CStr} (hf : findEntry t p = none) :
    memfsUnlink t p = (-ENOENT, t) := by
  rw [memfsUnlink, hf]

theorem memfsUnlink_dir {t : Table} {p : CStr} {i : Fin maxFiles} (hf : findEntry t p = some i)
    (hd : (t i).isDir = true) : memfsUnlink t p = (-EISDIR, t) := by
  rw [memfsUnlink, hf]
  exact if_pos hd

theorem memfsUnlink_file {t : Table} {p : CStr} {i : Fin maxFiles} (hf : findEntry t p = some i)
    (hd : (t i).isDir = false) : memfsUnlink t p = (0, dropEntry t i) := by
  rw [memfsUnlink, hf]
  exact if_neg (by simp [hd])

theorem memfsRmdir_none {t : Table} {p : CStr} (hf : findEntry t p = none) :
    memfsRmdir t p = (-ENOENT, t) := by
  rw [memfsRmdir, hf]

theorem memfsRmdir_file {t : Table} {p : CStr} {i : Fin maxFiles} (hf : findEntry t p = some i)
    (hd : (t i).isDir = false) : memfsRmdir t p = (-ENOTDIR, t) := by
  rw [memfsRmdir, hf]
  exact if_pos (by simp [hd])

theorem memfsRmdir_blocked {t : Table} {p : CStr} {i j : Fin maxFiles}
    (hf : findEntry t p = some i) (hd : (t i).isDir = true) (hb : rmdirBlocks t p i j = true) :
    memfsRmdir t p = (-ENOTEMPTY, t) := by
  rw [memfsRmdir, hf]
  refine (if_neg (by simp [hd])).trans (if_pos ?_)
  exact List.any_eq_true.mpr ⟨j, List.mem_finRange j, hb⟩

theorem memfsRmdir_empty {t : Table} {p : CStr} {i : Fin maxFiles} (hf : findEntry t p = some i)
    (hd : (t i).isDir = true) (hb : ∀ j, rmdirBlocks t p i j = false) :
    memfsRmdir t p = (0, dropEntry t i) := by
  rw [memfsRmdir, hf]
  refine (if_neg (by simp [hd])).trans (if_neg ?_)
  simp [hb]

theorem rmdirBlocks_iff {t : Table} {p : CStr} {i j : Fin maxFiles} :
    rmdirBlocks t p i j = true ↔
      (t j).used = true ∧ j ≠ i ∧ p.bytes ++ [slash] <+: (t j).name.bytes := by
  have hslash : slash ≠ 0 := by decide
  have hb := strncmp_charAt_iff (s := (t j).name) (t := p) hslash
  simp only [rmdirBlocks, Bool.and_eq_true, decide_eq_true_eq]
  rw [← hb]
  tauto

theorem memfsUnlink_effect {t : Table} {c : OpCall} {p : CStr} (hop : c.op = .unlink p) :
    Effect t c ⟨(memfsUnlink t p).1, .nothing⟩ (memfsUnlink t p).2 := by
  have hm : c.op.makes = none := by rw [hop]; rfl
  have hr : c.op.removes = some p := by rw [hop]; rfl
  cases hf : findEntry t p with
  | none =>
    rw [memfsUnlink_none hf]
    exact .keep (fun i => SameShape.refl _) (fun h => absurd hm h) (fun _ => ENOENT_ne)
  | some i =>
    cases hd : (t i).isDir with
    | true =>
      rw [memfsUnlink_dir hf hd]
      exact .keep (fun i => SameShape.refl _) (fun h => absurd hm h) (fun _ => EISDIR_ne)
    | false =>
      rw [memfsUnlink_file hf hd]
      exact .remove p i hr rfl hf (fun h => by rw [hd] at h; cases h) rfl

theorem memfsRmdir_effect {t : Table} {c : OpCall} {p : CStr} (hop : c.op = .rmdir p) :
    Effect t c ⟨(memfsRmdir t p).1, .nothing⟩ (memfsRmdir t p).2 := by
  have hm : c.op.makes = none := by rw [hop]; rfl
  have hr : c.op.removes = some p := by rw [hop]; rfl
  cases hf : findEntry t p with
  | none =>
    rw [memfsRmdir_none hf]
    exact .keep (fun i => SameShape.refl _) (fun h => absurd hm h) (fun _ => ENOENT_ne)
  | some i =>
    cases hd : (t i).isDir with
    | false =>
      rw [memfsRmdir_file hf hd]
      exact .keep (fun i => SameShape.refl _) (fun h => absurd hm h) (fun _ => ENOTDIR_ne)
    | true =>
      by_cases hb : ∃ j, rmdirBlocks t p i j = true
      · obtain ⟨j, hj⟩ := hb
        rw [memfsRmdir_blocked hf hd hj]
        exact .keep (fun i => SameShape.refl _) (fun h => absurd hm h) (fun _ => ENOTEMPTY_ne)
      · have hb' : ∀ j, rmdirBlocks t p i j = false := by simpa using hb
        rw [memfsRmdir_empty hf hd hb']
        exact .remove p i hr rfl hf (fun _ => hb') rfl

/-- Every call has one of the three effects on the namespace. -/
theorem opStep_effect {t t' : Table} {c : OpCall} {r : Reply} (h : opStep t c = some (r, t')) :
    Effect t c r t' := by
  obtain ⟨op, env⟩ := c
  cases op with
  | create p mode =>
    simp only [opStep, memfsCreate_eq, Option.some.injEq, Prod.mk.injEq] at h
    obtain ⟨rfl, rfl⟩ := h
    exact makeEntry_effect mode rfl rfl
  | mkdir p mode =>
    simp only [opStep, memfsMkdir_eq, Option.some.injEq, Prod.mk.injEq] at h
    obtain ⟨rfl, rfl⟩ := h
    exact makeEntry_effect mode rfl rfl
  | write p buf off =>
    simp only [opStep, Option.map_eq_some_iff, Prod.mk.injEq] at h
    obtain ⟨⟨ret, t1⟩, h, rfl, rfl⟩ := h
    exact .keep (memfsWrite_shape h) (fun hm => absurd rfl hm) (fun hr => absurd rfl hr)
  | read p size off =>
    simp only [opStep, Option.map_eq_some_iff, Prod.mk.injEq] at h
    obtain ⟨⟨ret, bs, t1⟩, h, rfl, rfl⟩ := h
    exact .keep (memfsRead_shape h) (fun hm => absurd rfl hm) (fun hr => absurd rfl hr)
  | truncate p size =>
    simp only [opStep, Option.map_eq_some_iff, Prod.mk.injEq] at h
    obtain ⟨⟨ret, t1⟩, h, rfl, rfl⟩ := h
    exact .keep (memfsTruncate_shape h) (fun hm => absurd rfl hm) (fun hr => absurd rfl hr)
  | unlink p =>
    simp only [opStep, Option.some.injEq, Prod.mk.injEq] at h
    obtain ⟨rfl, rfl⟩ := h
    exact memfsUnlink_effect rfl
  | rmdir p =>
    simp only [opStep, Option.some.injEq, Prod.mk.injEq] at h
    obtain ⟨rfl, rfl⟩ := h
    exact memfsRmdir_effect rfl

end Memfs
