import LinuxHandson.Memfs.Proofs.ContentsProofs

/-!
# Proofs: `memfs` refines the reference filesystem

The table and the reference map are related when the used entries have different names and every
path finds an entry exactly when the map has it, with the same kind and contents. Every call the
kernel makes keeps the relation and gives the reply of the reference.
-/

namespace Memfs

open CLib

/-- What the kernel guarantees of a call: paths of at most 255 bytes, reads, writes and truncations
of regular files only, no negative offset, buffers that are C objects, writes of at least one
byte; and `realloc` succeeds. -/
def KernelCall (t : Table) (c : OpCall) : Prop :=
  match c.op with
  | .create p _ => strlen p ≤ maxNameLen
  | .mkdir p _ => strlen p ≤ maxNameLen
  | .write p buf off =>
    strlen p ≤ maxNameLen ∧ (∀ i, findEntry t p = some i → (t i).isDir = false) ∧
      1 ≤ buf.length ∧ buf.length < 2 ^ 63 ∧ 0 ≤ off ∧ off < 2 ^ 63 ∧ c.env.heap.ok = true
  | .read p size off =>
    strlen p ≤ maxNameLen ∧ (∀ i, findEntry t p = some i → (t i).isDir = false) ∧
      size < 2 ^ 63 ∧ 0 ≤ off ∧ off < 2 ^ 63
  | .truncate p size =>
    strlen p ≤ maxNameLen ∧ (∀ i, findEntry t p = some i → (t i).isDir = false) ∧
      0 ≤ size ∧ size < 2 ^ 63 ∧ c.env.heap.ok = true
  | .unlink p => strlen p ≤ maxNameLen
  | .rmdir p => strlen p ≤ maxNameLen

instance (t : Table) (c : OpCall) : Decidable (KernelCall t c) := by
  obtain ⟨op, env⟩ := c
  cases op <;> (unfold KernelCall; infer_instance)

/-- The entry stands for the node. -/
def NodeRel (e : MemfsEntry) : Node → Prop
  | .dir => e.isDir = true
  | .file d => e.isDir = false ∧ contents e.data = d.bytes

/-- The table stands for the filesystem. -/
structure Rel (t : Table) (fs : RefFS) : Prop where
  names : NamesUnique t
  wf : ∀ i, (t i).used = true → EntryWf (t i)
  absent : ∀ p, findEntry t p = none → fs.lookup p = none
  present : ∀ p i, findEntry t p = some i → ∃ n, fs.lookup p = some n ∧ NodeRel (t i) n

theorem rel_init : Rel Table.init RefFS.empty where
  names := fun i j hi => absurd hi (by simp [Table.init, MemfsEntry.zero])
  wf := fun i hi => absurd hi (by simp [Table.init, MemfsEntry.zero])
  absent := fun p _ => Finmap.lookup_empty p
  present := fun p i h => absurd (findEntry_some h).1 (by simp [Table.init, MemfsEntry.zero])

section Steps

variable {t : Table} {fs fs' : RefFS} {p : CStr} {i : Fin maxFiles}

theorem Rel.lookup_dir (h : Rel t fs) (hf : findEntry t p = some i) (hd : (t i).isDir = true) :
    fs.lookup p = some .dir := by
  obtain ⟨n, hn, hr⟩ := h.present p i hf
  cases n with
  | dir => exact hn
  | file d => exact absurd (hd.symm.trans hr.1) (by decide)

theorem Rel.lookup_file (h : Rel t fs) (hf : findEntry t p = some i) (hd : (t i).isDir = false) :
    ∃ d, fs.lookup p = some (.file d) ∧ contents (t i).data = d.bytes := by
  obtain ⟨n, hn, hr⟩ := h.present p i hf
  cases n with
  | dir => exact absurd (hd.symm.trans hr) (by decide)
  | file d => exact ⟨d, hn, hr.2⟩

theorem Rel.mem_iff (h : Rel t fs) : p ∈ fs.nodes ↔ ∃ i, findEntry t p = some i := by
  rw [← Finmap.lookup_isSome]
  constructor
  · intro hs
    cases hf : findEntry t p with
    | none =>
      have : fs.nodes.lookup p = none := h.absent p hf
      rw [this] at hs
      cases hs
    | some i => exact ⟨i, rfl⟩
  · rintro ⟨i, hf⟩
    obtain ⟨n, hn, -⟩ := h.present p i hf
    have : fs.nodes.lookup p = some n := hn
    rw [this]
    rfl

/-- A free slot is there exactly when the map has room. -/
theorem Rel.freeSlot_none (h : Rel t fs) : freeSlot t = none ↔ maxFiles ≤ fs.nodes.keys.card := by
  have hkeys : fs.nodes.keys = SlotTable.keys MemfsEntry.used MemfsEntry.name t := by
    ext q
    rw [Finmap.mem_keys, h.mem_iff, SlotTable.mem_keys_iff_find, Option.isSome_iff_exists,
      ← findEntry_eq]
  rw [hkeys]
  exact h.names.no_free

/-- A slot that is free or holds the entry of `p` gets an entry of `p`; only the node of `p` changes. -/
theorem Rel.set (h : Rel t fs) {e : MemfsEntry} {n : Node}
    (hold : (t i).used = true → (t i).name = p)
    (hno : ∀ j, j ≠ i → (t j).used = true → (t j).name ≠ p) (hu : e.used = true) (hname : e.name = p)
    (hwf : EntryWf e) (hn : NodeRel e n) (hp : fs'.lookup p = some n)
    (hother : ∀ q, q ≠ p → fs'.lookup q = fs.lookup q) : Rel (Function.update t i e) fs' := by
  have hnames : NamesUnique (Function.update t i e) :=
    h.names.update fun _ j hj hju hjn => hno j hj hju (hjn.trans hname)
  have hfind : ∀ q, q ≠ p → findEntry (Function.update t i e) q = findEntry t q := by
    intro q hq
    rw [findEntry_eq, findEntry_eq]
    exact SlotTable.find_update_of_ne (fun hc => by rw [hold hc]; exact Ne.symm hq)
      (fun _ => by rw [hname]; exact Ne.symm hq)
  have hfindp : findEntry (Function.update t i e) p = some i := by
    rw [hnames.findEntry_iff, Function.update_self]
    exact ⟨hu, hname⟩
  refine ⟨hnames, fun j hj => ?_, fun q hq => ?_, fun q j hq => ?_⟩
  · by_cases hji : j = i
    · subst hji
      rw [Function.update_self]
      exact hwf
    · rw [Function.update_of_ne hji] at hj ⊢
      exact h.wf j hj
  · by_cases hqp : q = p
    · rw [hqp, hfindp] at hq
      cases hq
    · rw [hother q hqp]
      exact h.absent q (hfind q hqp ▸ hq)
  · by_cases hqp : q = p
    · subst hqp
      rw [hfindp, Option.some.injEq] at hq
      subst hq
      rw [Function.update_self]
      exact ⟨n, hp, hn⟩
    · rw [hfind q hqp] at hq
      obtain ⟨hju, hjn⟩ := findEntry_some hq
      have hji : j ≠ i := by
        rintro rfl
        exact hqp (hjn.symm.trans (hold hju))
      rw [hother q hqp, Function.update_of_ne hji]
      exact h.present q j hq

/-- Only the entry of `p` changes, keeping its name; only the node of `p` changes. -/
theorem Rel.update (h : Rel t fs) (hf : findEntry t p = some i) {e : MemfsEntry} {n : Node}
    (hs : SameShape (t i) e) (hwf : EntryWf e) (hn : NodeRel e n) (hp : fs'.lookup p = some n)
    (hother : ∀ q, q ≠ p → fs'.lookup q = fs.lookup q) : Rel (Function.update t i e) fs' := by
  obtain ⟨hu, hname⟩ := findEntry_some hf
  refine h.set (fun _ => hname) ?_ (hs.1.trans hu) (hs.2.1.trans hname) hwf hn hp hother
  intro j hj hju hjn
  exact hj (h.names j i hju hu (hjn.trans hname.symm))

/-- A new entry in a free slot, a new path in the map. -/
theorem Rel.make (h : Rel t fs) (hf : findEntry t p = none) (hi : freeSlot t = some i)
    {e : MemfsEntry} {n : Node} (hu : e.used = true) (hname : e.name = p) (hwf : EntryWf e)
    (hn : NodeRel e n) (hroom : fs.nodes.keys.card < maxFiles) :
    Rel (Function.update t i e) (fs.add p n hroom) := by
  have hfree := freeSlot_some hi
  have hold : (t i).used = true → (t i).name = p := fun hc => absurd (hc.symm.trans hfree) (by decide)
  have hother : ∀ q, q ≠ p → (fs.add p n hroom).lookup q = fs.lookup q := fun q hq =>
    Finmap.lookup_insert_of_ne fs.nodes hq
  exact h.set hold (fun j _ => findEntry_eq_none.mp hf j) hu hname hwf hn (Finmap.lookup_insert _)
    hother

/-- An entry is dropped, its path erased. -/
theorem Rel.remove (h : Rel t fs) (hf : findEntry t p = some i) :
    Rel (dropEntry t i) (fs.remove p) := by
  obtain ⟨hu, hname⟩ := findEntry_some hf
  have hnames : NamesUnique (dropEntry t i) := h.names.update fun hc => by cases hc
  have hfind : ∀ q, q ≠ p → findEntry (dropEntry t i) q = findEntry t q := by
    intro q hq
    rw [findEntry_eq, findEntry_eq]
    exact SlotTable.find_update_of_ne (fun _ => by rw [hname]; exact Ne.symm hq)
      (fun hc => by cases hc)
  have hne : ∀ q j, findEntry (dropEntry t i) q = some j → j ≠ i := by
    intro q j hq hji
    have := (findEntry_some hq).1
    rw [hji, dropEntry, Function.update_self] at this
    cases this
  have hfindp : findEntry (dropEntry t i) p = none := by
    cases hq : findEntry (dropEntry t i) p with
    | none => rfl
    | some j =>
      have hji := hne p j hq
      obtain ⟨h1, h2⟩ := findEntry_some hq
      rw [dropEntry, Function.update_of_ne hji] at h1 h2
      exact absurd (h.names j i h1 hu (h2.trans hname.symm)) hji
  have hother : ∀ q, q ≠ p → (fs.remove p).lookup q = fs.lookup q := fun q hq =>
    Finmap.lookup_erase_ne hq
  refine ⟨hnames, fun j hj => ?_, fun q hq => ?_, fun q j hq => ?_⟩
  · have hji : j ≠ i := by
      intro hji
      rw [hji, dropEntry, Function.update_self] at hj
      cases hj
    rw [dropEntry, Function.update_of_ne hji] at hj ⊢
    exact h.wf j hj
  · by_cases hqp : q = p
    · rw [hqp]
      exact Finmap.lookup_erase p fs.nodes
    · rw [hother q hqp]
      exact h.absent q (hfind q hqp ▸ hq)
  · have hji := hne q j hq
    have hqp : q ≠ p := by
      intro hqp
      rw [hqp, hfindp] at hq
      cases hq
    rw [hother q hqp, dropEntry, Function.update_of_ne hji]
    exact h.present q j (hfind q hqp ▸ hq)

end Steps

/-! ## One lemma per handler -/

section Handlers

variable {t : Table} {fs : RefFS} {p : CStr}

theorem sim_make (h : Rel t fs) (env : Env) (d : Bool) (mode : Nat) {n : Node}
    (hp : strlen p ≤ maxNameLen) (hn : NodeRel (newEntry env p d mode) n) :
    (makeEntry env t p d mode).1 = (fs.make p n).1 ∧
      Rel (makeEntry env t p d mode).2 (fs.make p n).2 := by
  unfold makeEntry RefFS.make
  cases hf : findEntry t p with
  | some i =>
    rw [if_pos (h.mem_iff.mpr ⟨i, hf⟩)]
    exact ⟨rfl, h⟩
  | none =>
    have hnot : p ∉ fs.nodes := fun hm => by
      obtain ⟨i, hi⟩ := h.mem_iff.mp hm
      rw [hf] at hi
      cases hi
    rw [if_neg hnot]
    cases hs : freeSlot t with
    | none =>
      rw [dif_neg (by have := h.freeSlot_none.mp hs; omega)]
      exact ⟨rfl, h⟩
    | some i =>
      have hroom : fs.nodes.keys.card < maxFiles := by
        by_contra hc
        have := h.freeSlot_none.mpr (by omega)
        rw [hs] at this
        cases this
      rw [dif_pos hroom]
      exact ⟨rfl, h.make hf hs rfl (strncpy_of_le hp) (entryWf_newEntry env p d mode) hn hroom⟩

theorem RefFS.lookup_setBytes {fs : RefFS} {p : CStr} {b : List UInt8} (hm : p ∈ fs.nodes)
    (hb : b.length ≤ maxDataSize) : (fs.setBytes p b).lookup p = some (.file ⟨b, hb⟩) := by
  unfold RefFS.setBytes
  rw [dif_pos ⟨hm, hb⟩]
  exact Finmap.lookup_insert _

/-- The entry of a regular file and its node get the same new contents. -/
theorem Rel.setBytes (h : Rel t fs) {i : Fin maxFiles} (hf : findEntry t p = some i)
    (hd : (t i).isDir = false) {e : MemfsEntry} (hs : SameShape (t i) e) (hwf : EntryWf e)
    {b : List UInt8} (hb : contents e.data = b) :
    Rel (Function.update t i e) (fs.setBytes p b) := by
  have hle : b.length ≤ maxDataSize := by
    rw [← hb, ← hwf.size_eq]
    exact hwf.size_le
  have hn : NodeRel e (.file ⟨b, hle⟩) := ⟨hs.2.2.trans hd, hb⟩
  exact h.update hf hs hwf hn
    (RefFS.lookup_setBytes (h.mem_iff.mpr ⟨i, hf⟩) hle)
    (fun q hq => RefFS.lookup_setBytes_of_ne hq)

theorem RefFS.fileAt_none (h : fs.lookup p = none) : fs.fileAt p = .error (-ENOENT) := by
  rw [RefFS.fileAt, h]

theorem RefFS.fileAt_file {d : FileData} (h : fs.lookup p = some (.file d)) :
    fs.fileAt p = .ok d := by
  rw [RefFS.fileAt, h]

theorem Below.ne {p q : CStr} (h : Below p q) : q ≠ p := by
  rintro rfl
  have hl := h.length_le
  rw [List.length_append, List.length_singleton] at hl
  omega

/-- `memfs_rmdir` finds an entry below `p` exactly when the map has a path below `p`. -/
theorem Rel.exists_below (h : Rel t fs) {i : Fin maxFiles} (hf : findEntry t p = some i) :
    (∃ j, rmdirBlocks t p i j = true) ↔ ∃ q ∈ fs.nodes.keys, Below p q := by
  constructor
  · rintro ⟨j, hj⟩
    obtain ⟨hu, -, hb⟩ := rmdirBlocks_iff.mp hj
    refine ⟨(t j).name, ?_, hb⟩
    rw [Finmap.mem_keys, h.mem_iff]
    exact ⟨j, h.names.findEntry_iff.mpr ⟨hu, rfl⟩⟩
  · rintro ⟨q, hq, hb⟩
    rw [Finmap.mem_keys, h.mem_iff] at hq
    obtain ⟨j, hj⟩ := hq
    obtain ⟨hu, rfl⟩ := findEntry_some hj
    refine ⟨j, rmdirBlocks_iff.mpr ⟨hu, ?_, hb⟩⟩
    rintro rfl
    exact hb.ne (findEntry_some hf).2

/-- The call gets the reply of the reference filesystem, and keeps the relation. -/
def Simulated (t : Table) (fs : RefFS) (c : OpCall) : Prop :=
  ∃ t', opStep t c = some ((fs.step c).1, t') ∧ Rel t' (fs.step c).2

variable {env : Env}

theorem sim_write (h : Rel t fs) {buf : List UInt8} {off : Int}
    (hk : KernelCall t ⟨.write p buf off, env⟩) : Simulated t fs ⟨.write p buf off, env⟩ := by
  obtain ⟨hp, hreg, h1, h63, h0, hoff, hok⟩ := hk
  obtain ⟨o, rfl⟩ := Int.eq_ofNat_of_zero_le h0
  cases hf : findEntry t p with
  | none =>
    simp only [Simulated, opStep, RefFS.step, RefFS.fileAt_none (h.absent p hf), memfsWrite_none hf]
    exact ⟨t, rfl, h⟩
  | some i =>
    have hd := hreg i hf
    obtain ⟨d, hl, hc⟩ := h.lookup_file hf hd
    simp only [Simulated, opStep, RefFS.step, RefFS.fileAt_file hl, Int.toNat_natCast]
    by_cases hfit : o + buf.length > maxDataSize
    · rw [if_pos hfit, memfsWrite_nospace hf h63 (by omega) hfit]
      exact ⟨t, rfl, h⟩
    · obtain ⟨e, hw, hs, hwf, he⟩ :=
        memfsWrite_ok hf (h.wf i (findEntry_some hf).1) hok h1 (Nat.le_of_not_gt hfit)
      rw [if_neg hfit, hw]
      exact ⟨_, rfl, h.setBytes hf hd hs hwf (by rw [he, hc])⟩

theorem sim_read (h : Rel t fs) {size : Nat} {off : Int}
    (hk : KernelCall t ⟨.read p size off, env⟩) : Simulated t fs ⟨.read p size off, env⟩ := by
  obtain ⟨hp, hreg, h63, h0, hoff⟩ := hk
  obtain ⟨o, rfl⟩ := Int.eq_ofNat_of_zero_le h0
  cases hf : findEntry t p with
  | none =>
    simp only [Simulated, opStep, RefFS.step, RefFS.fileAt_none (h.absent p hf), memfsRead_none hf]
    exact ⟨t, rfl, h⟩
  | some i =>
    have hd := hreg i hf
    obtain ⟨d, hl, hc⟩ := h.lookup_file hf hd
    obtain ⟨e, hr, hs, hwf, he⟩ : ∃ e, memfsRead env t p size o = _ ∧ _ :=
      memfsRead_ok hf (h.wf i (findEntry_some hf).1) h63 (by omega)
    simp only [Simulated, opStep, RefFS.step, RefFS.fileAt_file hl, Int.toNat_natCast, hr, hc]
    refine ⟨_, rfl, h.update hf hs hwf ?_ hl (fun q _ => rfl)⟩
    exact ⟨hs.2.2.trans hd, he.trans hc⟩

theorem sim_truncate (h : Rel t fs) {size : Int}
    (hk : KernelCall t ⟨.truncate p size, env⟩) : Simulated t fs ⟨.truncate p size, env⟩ := by
  obtain ⟨hp, hreg, h0, hsz, hok⟩ := hk
  obtain ⟨n, rfl⟩ := Int.eq_ofNat_of_zero_le h0
  cases hf : findEntry t p with
  | none =>
    simp only [Simulated, opStep, RefFS.step, RefFS.fileAt_none (h.absent p hf),
      memfsTruncate_none hf]
    exact ⟨t, rfl, h⟩
  | some i =>
    have hd := hreg i hf
    obtain ⟨d, hl, hc⟩ := h.lookup_file hf hd
    simp only [Simulated, opStep, RefFS.step, RefFS.fileAt_file hl, Int.toNat_natCast]
    by_cases hfit : n > maxDataSize
    · rw [if_pos hfit, memfsTruncate_nospace hf (by omega) hfit]
      exact ⟨t, rfl, h⟩
    · obtain ⟨e, hw, hs, hwf, he⟩ :=
        memfsTruncate_ok hf (h.wf i (findEntry_some hf).1) hok (Nat.le_of_not_gt hfit)
      rw [if_neg hfit, hw]
      exact ⟨_, rfl, h.setBytes hf hd hs hwf (by rw [he, hc])⟩

theorem sim_unlink (h : Rel t fs) : Simulated t fs ⟨.unlink p, env⟩ := by
  cases hf : findEntry t p with
  | none =>
    simp only [Simulated, opStep, RefFS.step, memfsUnlink_none hf, h.absent p hf]
    exact ⟨t, rfl, h⟩
  | some i =>
    cases hd : (t i).isDir with
    | true =>
      simp only [Simulated, opStep, RefFS.step, memfsUnlink_dir hf hd, h.lookup_dir hf hd]
      exact ⟨t, rfl, h⟩
    | false =>
      obtain ⟨d, hl, -⟩ := h.lookup_file hf hd
      simp only [Simulated, opStep, RefFS.step, memfsUnlink_file hf hd, hl]
      exact ⟨_, rfl, h.remove hf⟩

theorem sim_rmdir (h : Rel t fs) : Simulated t fs ⟨.rmdir p, env⟩ := by
  cases hf : findEntry t p with
  | none =>
    simp only [Simulated, opStep, RefFS.step, memfsRmdir_none hf, h.absent p hf]
    exact ⟨t, rfl, h⟩
  | some i =>
    cases hd : (t i).isDir with
    | false =>
      obtain ⟨d, hl, -⟩ := h.lookup_file hf hd
      simp only [Simulated, opStep, RefFS.step, memfsRmdir_file hf hd, hl]
      exact ⟨t, rfl, h⟩
    | true =>
      simp only [Simulated, opStep, RefFS.step, h.lookup_dir hf hd]
      by_cases hb : ∃ q ∈ fs.nodes.keys, Below p q
      · obtain ⟨j, hj⟩ := (h.exists_below hf).mpr hb
        rw [if_pos hb, memfsRmdir_blocked hf hd hj]
        exact ⟨t, rfl, h⟩
      · have hno : ∀ j, rmdirBlocks t p i j = false := by
          intro j
          by_contra hj
          exact hb ((h.exists_below hf).mp ⟨j, by simpa using hj⟩)
        rw [if_neg hb, memfsRmdir_empty hf hd hno]
        exact ⟨_, rfl, h.remove hf⟩

/-- Every call of the kernel gets the reply of the reference filesystem. -/
theorem opStep_sim (t : Table) (fs : RefFS) (c : OpCall) (h : Rel t fs) (hk : KernelCall t c) :
    ∃ t', opStep t c = some ((fs.step c).1, t') ∧ Rel t' (fs.step c).2 := by
  obtain ⟨op, env⟩ := c
  cases op with
  | create p mode =>
    obtain ⟨h1, h2⟩ := sim_make (n := .file ⟨[], Nat.zero_le _⟩) h env false mode hk ⟨rfl, rfl⟩
    simp only [opStep, RefFS.step, memfsCreate_eq, h1]
    exact ⟨_, rfl, h2⟩
  | mkdir p mode =>
    obtain ⟨h1, h2⟩ := sim_make (n := .dir) h env true mode hk rfl
    simp only [opStep, RefFS.step, memfsMkdir_eq, h1]
    exact ⟨_, rfl, h2⟩
  | write p buf off => exact sim_write h hk
  | read p size off => exact sim_read h hk
  | truncate p size => exact sim_truncate h hk
  | unlink p => exact sim_unlink h
  | rmdir p => exact sim_rmdir h

end Handlers

/-- On every run of calls the kernel makes, no call has undefined behaviour and every return code
and every byte read is that of the reference filesystem. -/
theorem memfs_refines_refFS (cs : List OpCall)
    (h : Machine.Legal opStep KernelCall Table.init cs) :
    ∃ t, Machine.exec opStep Table.init cs =
      some ((Machine.specRun RefFS.step RefFS.empty cs).1, t) := by
  obtain ⟨t, ht, -⟩ := Machine.Legal.sim opStep_sim cs Table.init RefFS.empty rel_init h
  exact ⟨t, ht⟩

/-- Nothing of a file that was extended past a gap, cut, deleted and made again shows up later. -/
theorem memfs_refines_refFS_run :
    let env : Env := ⟨0, 0, 0, true, fun _ => 0xAA⟩
    let a : CStr := ⟨[slash, 0x61], by decide⟩
    ∃ t, Machine.exec opStep Table.init
        [⟨.create a 0o644, env⟩, ⟨.write a [1, 2] 3, env⟩, ⟨.read a 9 0, env⟩,
          ⟨.truncate a 4, env⟩, ⟨.truncate a 6, env⟩, ⟨.read a 9 2, env⟩, ⟨.unlink a, env⟩,
          ⟨.create a 0o644, env⟩, ⟨.read a 9 0, env⟩, ⟨.rmdir a, env⟩] =
      some ([⟨0, .nothing⟩, ⟨2, .nothing⟩, ⟨5, .bytes [0, 0, 0, 1, 2]⟩, ⟨0, .nothing⟩,
        ⟨0, .nothing⟩, ⟨4, .bytes [0, 1, 0, 0]⟩, ⟨0, .nothing⟩, ⟨0, .nothing⟩, ⟨0, .bytes []⟩,
        ⟨-ENOTDIR, .nothing⟩], t) :=
  memfs_refines_refFS _ (by decide +kernel)

end Memfs
