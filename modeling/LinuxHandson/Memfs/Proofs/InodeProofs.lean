import LinuxHandson.Memfs.Proofs.RefinementProofs
import LinuxHandson.Memfs.Proofs.TreeProofs

/-!
# Proofs: what the handlers answer about paths

The attributes of the entries follow those of the reference filesystem through every call, so that
the handlers that only look at the table give answers that the reference filesystem gives.
-/

namespace Memfs

open CLib

/-- The attributes that an entry holds. -/
def attrsOf (e : MemfsEntry) : Attrs := ⟨e.mode, e.uid, e.gid, e.atime, e.mtime, e.ctime⟩

/-- The entries hold the attributes of their paths. -/
def AttrRel (t : Table) (attrs : CStr → Attrs) : Prop :=
  ∀ i, (t i).used = true → attrsOf (t i) = attrs (t i).name

/-! ## What a call does to the attributes -/

section Attributes

variable {env : Env} {t t' : Table} {attrs : CStr → Attrs} {p : CStr} {i : Fin maxFiles}

/-- Slot `i` gets an entry of the same name with the attributes `a`. -/
structure SetsAttrs (t t' : Table) (i : Fin maxFiles) (a : Attrs) : Prop where
  attrs : attrsOf (t' i) = a
  shape : ∀ j, SameShape (t j) (t' j)
  frame : ∀ j, j ≠ i → t' j = t j

theorem setsAttrs_refl (t : Table) (i : Fin maxFiles) : SetsAttrs t t i (attrsOf (t i)) :=
  ⟨rfl, fun _ => SameShape.refl _, fun _ _ => rfl⟩

theorem setsAttrs_update {e : MemfsEntry} (hs : SameShape (t i) e) :
    SetsAttrs t (Function.update t i e) i (attrsOf e) where
  attrs := by rw [Function.update_self]
  shape := sameShape_update hs
  frame := fun j hj => Function.update_of_ne hj _ _

theorem AttrRel.sets (h : AttrRel t attrs) (hnames : NamesUnique t) (hf : findEntry t p = some i)
    {a : Attrs} (hs : SetsAttrs t t' i a) : AttrRel t' (Function.update attrs p a) := by
  obtain ⟨hu, hname⟩ := findEntry_some hf
  intro j hj
  obtain ⟨hused, hsame, -⟩ := hs.shape j
  rw [hused] at hj
  rw [hsame]
  by_cases hji : j = i
  · rw [hji, hname, Function.update_self]
    exact hs.attrs
  · have hne : (t j).name ≠ p := fun hjp => hji (hnames j i hj hu (hjp.trans hname.symm))
    rw [Function.update_of_ne hne, hs.frame j hji]
    exact h j hj

theorem AttrRel.keeps (h : AttrRel t attrs) (hnames : NamesUnique t) (hf : findEntry t p = some i)
    (hs : SetsAttrs t t' i (attrsOf (t i))) : AttrRel t' attrs := by
  obtain ⟨hu, hname⟩ := findEntry_some hf
  have hattrs := h.sets hnames hf hs
  rwa [h i hu, hname, Function.update_eq_self] at hattrs

theorem AttrRel.make (h : AttrRel t attrs) (hf : findEntry t p = none) {e : MemfsEntry}
    (hname : e.name = p) : AttrRel (Function.update t i e) (Function.update attrs p (attrsOf e)) := by
  intro j hj
  by_cases hji : j = i
  · rw [hji, Function.update_self, hname, Function.update_self]
  · rw [Function.update_of_ne hji] at hj ⊢
    rw [Function.update_of_ne (findEntry_eq_none.mp hf j hj)]
    exact h j hj

theorem AttrRel.drop (h : AttrRel t attrs) : AttrRel (dropEntry t i) attrs := by
  intro j hj
  by_cases hji : j = i
  · rw [hji, dropEntry, Function.update_self] at hj
    cases hj
  · rw [dropEntry, Function.update_of_ne hji] at hj ⊢
    exact h j hj

theorem AttrRel.unlink (h : AttrRel t attrs) : AttrRel (memfsUnlink t p).2 attrs := by
  unfold memfsUnlink
  split
  · exact h
  · split
    · exact h
    · exact h.drop

theorem AttrRel.rmdir (h : AttrRel t attrs) : AttrRel (memfsRmdir t p).2 attrs := by
  unfold memfsRmdir
  split
  · exact h
  · split
    · exact h
    · split
      · exact h
      · exact h.drop

theorem memfsWrite_attrs {buf : List UInt8} {off r : Int} (hf : findEntry t p = some i)
    (h : memfsWrite env t p buf off = some (r, t')) :
    (r < 0 ∧ SetsAttrs t t' i (attrsOf (t i))) ∨
      SetsAttrs t t' i { attrsOf (t i) with mtime := env.now } := by
  unfold memfsWrite at h
  simp only [hf] at h
  split at h
  · obtain ⟨rfl, rfl⟩ := Prod.mk.inj (Option.some.inj h)
    exact .inl ⟨by decide, setsAttrs_refl t i⟩
  · split at h
    · split at h
      · obtain ⟨rfl, rfl⟩ := Prod.mk.inj (Option.some.inj h)
        exact .inl ⟨by decide, setsAttrs_update ⟨rfl, rfl, rfl⟩⟩
      · simp only [Option.bind_eq_bind, Option.bind_eq_some_iff] at h
        obtain ⟨_, _, _, _, h⟩ := h
        obtain ⟨-, rfl⟩ := Prod.mk.inj (Option.some.inj h)
        exact .inr (setsAttrs_update ⟨rfl, rfl, rfl⟩)
    · simp only [Option.bind_eq_bind, Option.bind_eq_some_iff] at h
      obtain ⟨_, _, h⟩ := h
      obtain ⟨-, rfl⟩ := Prod.mk.inj (Option.some.inj h)
      exact .inr (setsAttrs_update ⟨rfl, rfl, rfl⟩)

theorem memfsTruncate_attrs {size r : Int} (hf : findEntry t p = some i)
    (h : memfsTruncate env t p size = some (r, t')) :
    (r < 0 ∧ SetsAttrs t t' i (attrsOf (t i))) ∨
      SetsAttrs t t' i { attrsOf (t i) with mtime := env.now } := by
  unfold memfsTruncate at h
  simp only [hf] at h
  split at h
  · obtain ⟨rfl, rfl⟩ := Prod.mk.inj (Option.some.inj h)
    exact .inl ⟨by decide, setsAttrs_refl t i⟩
  · simp only [Option.bind_eq_bind, Option.bind_eq_some_iff] at h
    obtain ⟨_, _, h⟩ := h
    obtain ⟨-, rfl⟩ := Prod.mk.inj (Option.some.inj h)
    exact .inr (setsAttrs_update ⟨rfl, rfl, rfl⟩)

theorem memfsRead_attrs {size : Nat} {off r : Int} {bs : List UInt8} (hf : findEntry t p = some i)
    (h : memfsRead env t p size off = some (r, bs, t')) :
    SetsAttrs t t' i (if off ≥ offT (t i).size then attrsOf (t i)
      else { attrsOf (t i) with atime := env.now }) := by
  unfold memfsRead at h
  simp only [hf] at h
  by_cases hend : off ≥ offT (t i).size
  · rw [if_pos hend] at h ⊢
    simp only [Option.some.injEq, Prod.mk.injEq] at h
    rw [← h.2.2]
    exact setsAttrs_refl t i
  · rw [if_neg hend] at h ⊢
    split at h
    · cases h
    · simp only [Option.some.injEq, Prod.mk.injEq] at h
      rw [← h.2.2]
      exact setsAttrs_update ⟨rfl, rfl, rfl⟩

end Attributes

/-! ## One call -/

/-- The table stands for the filesystem and its attributes. -/
structure InodeRel (t : Table) (s : InodeFS) : Prop where
  rel : Rel t s.fs
  attrs : AttrRel t s.attrs

section Calls

variable {env : Env} {t t' : Table} {s : InodeFS} {p : CStr} {i : Fin maxFiles} {c : OpCall} {ret : Int}

theorem InodeFS.attrsAfter_neg (s : InodeFS) (c : OpCall) (h : ret < 0) : s.attrsAfter c ret = s.attrs :=
  if_neg (by omega)

theorem InodeFS.attrsAfter_ok (s : InodeFS) (c : OpCall) (h : 0 ≤ ret) :
    s.attrsAfter c ret = Function.update s.attrs (RefFS.pathOf c.op)
      (touched c.env (s.fs.size (RefFS.pathOf c.op)) (s.attrs (RefFS.pathOf c.op)) c.op) :=
  if_pos h

theorem InodeFS.attrsAfter_same (s : InodeFS) (h : ∀ n a, touched c.env n a c.op = a) :
    s.attrsAfter c ret = s.attrs := by
  by_cases hret : 0 ≤ ret
  · rw [s.attrsAfter_ok c hret, h, Function.update_eq_self]
  · exact s.attrsAfter_neg c (by omega)

theorem InodeRel.attrs_at (h : InodeRel t s) (hf : findEntry t p = some i) :
    attrsOf (t i) = s.attrs p := by
  obtain ⟨hu, hname⟩ := findEntry_some hf
  rw [h.attrs i hu, hname]

theorem attrs_make (h : InodeRel t s) (d : Bool) (mode : Nat) (hp : strlen p ≤ maxNameLen)
    (hpath : RefFS.pathOf c.op = p)
    (htouched : ∀ n a, InodeFS.touched c.env n a c.op = InodeFS.born c.env mode) :
    AttrRel (makeEntry c.env t p d mode).2 (s.attrsAfter c (makeEntry c.env t p d mode).1) := by
  unfold makeEntry
  cases hf : findEntry t p with
  | some i =>
    show AttrRel t (s.attrsAfter c (-EEXIST))
    rw [s.attrsAfter_neg c (by decide)]
    exact h.attrs
  | none =>
    cases hs : freeSlot t with
    | none =>
      show AttrRel t (s.attrsAfter c (-ENOSPC))
      rw [s.attrsAfter_neg c (by decide)]
      exact h.attrs
    | some i =>
      rw [s.attrsAfter_ok c (Int.le_refl 0), htouched, hpath]
      exact h.attrs.make hf (strncpy_of_le hp)

theorem attrs_error (h : InodeRel t s) {err : Int} (hneg : err < 0)
    (heq : some (err, t) = some (ret, t')) : AttrRel t' (s.attrsAfter c ret) := by
  obtain ⟨rfl, rfl⟩ := Prod.mk.inj (Option.some.inj heq)
  rw [s.attrsAfter_neg c hneg]
  exact h.attrs

theorem attrs_write (h : InodeRel t s) {buf : List UInt8} {off : Int}
    (hk : KernelCall t ⟨.write p buf off, env⟩)
    (hw : memfsWrite env t p buf off = some (ret, t')) :
    AttrRel t' (s.attrsAfter ⟨.write p buf off, env⟩ ret) := by
  obtain ⟨-, -, h1, h63, h0, hoff, hok⟩ := hk
  obtain ⟨o, rfl⟩ := Int.eq_ofNat_of_zero_le h0
  cases hf : findEntry t p with
  | none => exact attrs_error h (by decide) ((memfsWrite_none hf buf o).symm.trans hw)
  | some i =>
    by_cases hfit : o + buf.length > maxDataSize
    · exact attrs_error h (by decide) ((memfsWrite_nospace hf h63 (by omega) hfit).symm.trans hw)
    · obtain ⟨e, hw', -⟩ :=
        memfsWrite_ok hf (h.rel.wf i (findEntry_some hf).1) hok h1 (Nat.le_of_not_gt hfit)
      obtain ⟨hlen, -⟩ := Prod.mk.inj (Option.some.inj (hw'.symm.trans hw))
      have hpos : 0 ≤ ret := by omega
      rw [s.attrsAfter_ok _ hpos]
      rcases memfsWrite_attrs hf hw with ⟨hneg, -⟩ | hsets
      · omega
      · rw [h.attrs_at hf] at hsets
        exact h.attrs.sets h.rel.names hf hsets

theorem attrs_truncate (h : InodeRel t s) {size : Int} (hk : KernelCall t ⟨.truncate p size, env⟩)
    (hw : memfsTruncate env t p size = some (ret, t')) :
    AttrRel t' (s.attrsAfter ⟨.truncate p size, env⟩ ret) := by
  obtain ⟨-, -, h0, hsz, hok⟩ := hk
  obtain ⟨n, rfl⟩ := Int.eq_ofNat_of_zero_le h0
  cases hf : findEntry t p with
  | none => exact attrs_error h (by decide) ((memfsTruncate_none hf n).symm.trans hw)
  | some i =>
    by_cases hfit : n > maxDataSize
    · exact attrs_error h (by decide) ((memfsTruncate_nospace hf (by omega) hfit).symm.trans hw)
    · obtain ⟨e, hw', -⟩ :=
        memfsTruncate_ok hf (h.rel.wf i (findEntry_some hf).1) hok (Nat.le_of_not_gt hfit)
      obtain ⟨rfl, -⟩ := Prod.mk.inj (Option.some.inj (hw'.symm.trans hw))
      rw [s.attrsAfter_ok _ (Int.le_refl 0)]
      rcases memfsTruncate_attrs hf hw with ⟨hneg, -⟩ | hsets
      · omega
      · rw [h.attrs_at hf] at hsets
        exact h.attrs.sets h.rel.names hf hsets

theorem RefFS.size_file {fs : RefFS} {d : FileData} (h : fs.lookup p = some (.file d)) :
    fs.size p = d.bytes.length := by
  rw [RefFS.size, h]

theorem attrs_read (h : InodeRel t s) {size : Nat} {off : Int} {bs : List UInt8}
    (hk : KernelCall t ⟨.read p size off, env⟩)
    (hr : memfsRead env t p size off = some (ret, bs, t')) :
    AttrRel t' (s.attrsAfter ⟨.read p size off, env⟩ ret) := by
  obtain ⟨-, hreg, h63, h0, hoff⟩ := hk
  obtain ⟨o, rfl⟩ := Int.eq_ofNat_of_zero_le h0
  cases hf : findEntry t p with
  | none =>
    obtain ⟨rfl, heq⟩ := Prod.mk.inj (Option.some.inj ((memfsRead_none hf size o).symm.trans hr))
    obtain ⟨-, rfl⟩ := Prod.mk.inj heq
    rw [s.attrsAfter_neg _ (by decide)]
    exact h.attrs
  | some i =>
    have hwf := h.rel.wf i (findEntry_some hf).1
    obtain ⟨d, hl, hc⟩ := h.rel.lookup_file hf (hreg i hf)
    obtain ⟨e, hr', -⟩ : ∃ e, memfsRead env t p size o = _ ∧ _ := memfsRead_ok hf hwf h63 (by omega)
    obtain ⟨rfl, -⟩ := Prod.mk.inj (Option.some.inj (hr'.symm.trans hr))
    rw [s.attrsAfter_ok _ (Int.natCast_nonneg _)]
    -- `atime` is set exactly when the file reaches beyond the offset
    have hlen : (t i).size = d.bytes.length := by rw [hwf.size_eq, hc]
    have hmax := maxDataSize_lt
    have hle := hwf.size_le
    have hend : ((o : Int) ≥ offT (t i).size) ↔ ¬ o < d.bytes.length := by
      rw [offT_of_lt (by omega) (by omega)]
      omega
    have hsets := memfsRead_attrs hf hr
    simp only [hend, ite_not, h.attrs_at hf] at hsets
    rw [← RefFS.size_file hl] at hsets
    exact h.attrs.sets h.rel.names hf hsets

/-- Every call of the kernel makes of the attributes what the reference filesystem makes of them. -/
theorem attrs_step (h : InodeRel t s) (hk : KernelCall t c) {r : Reply}
    (hr : opStep t c = some (r, t')) : AttrRel t' (s.attrsAfter c r.ret) := by
  obtain ⟨op, env⟩ := c
  cases op with
  | create p mode =>
    simp only [opStep, memfsCreate_eq] at hr
    obtain ⟨rfl, rfl⟩ := Prod.mk.inj (Option.some.inj hr)
    exact attrs_make (c := ⟨.create p mode, env⟩) h false mode hk rfl fun _ _ => rfl
  | mkdir p mode =>
    simp only [opStep, memfsMkdir_eq] at hr
    obtain ⟨rfl, rfl⟩ := Prod.mk.inj (Option.some.inj hr)
    exact attrs_make (c := ⟨.mkdir p mode, env⟩) h true mode hk rfl fun _ _ => rfl
  | write p buf off =>
    obtain ⟨⟨ret, t1⟩, hw, heq⟩ := Option.map_eq_some_iff.mp hr
    obtain ⟨rfl, rfl⟩ := Prod.mk.inj heq
    exact attrs_write h hk hw
  | read p size off =>
    obtain ⟨⟨ret, bs, t1⟩, hw, heq⟩ := Option.map_eq_some_iff.mp hr
    obtain ⟨rfl, rfl⟩ := Prod.mk.inj heq
    exact attrs_read h hk hw
  | truncate p size =>
    obtain ⟨⟨ret, t1⟩, hw, heq⟩ := Option.map_eq_some_iff.mp hr
    obtain ⟨rfl, rfl⟩ := Prod.mk.inj heq
    exact attrs_truncate h hk hw
  | unlink p =>
    obtain ⟨rfl, rfl⟩ := Prod.mk.inj (Option.some.inj hr)
    rw [s.attrsAfter_same fun _ _ => rfl]
    exact h.attrs.unlink
  | rmdir p =>
    obtain ⟨rfl, rfl⟩ := Prod.mk.inj (Option.some.inj hr)
    rw [s.attrsAfter_same fun _ _ => rfl]
    exact h.attrs.rmdir

end Calls

/-! ## One look -/

section Looks

variable {env : Env} {t : Table} {s : InodeFS}

theorem getattr_answers (h : InodeRel t s) (p : CStr) :
    s.Answers env (.getattr p) (query env t (.getattr p)) := by
  show s.Answers env _ ⟨(memfsGetattr env t p).1, .stat (memfsGetattr env t p).2⟩
  unfold memfsGetattr
  by_cases hp : p = root
  · rw [if_pos (strcmp_eq_zero.mpr hp), hp]
    exact .statRoot
  · rw [if_neg (fun hc => hp (strcmp_eq_zero.mp hc))]
    cases hf : findEntry t p with
    | none => exact .statNone hp (h.rel.absent p hf)
    | some i =>
      have hattrs : s.attrs p = attrsOf (t i) := (h.attrs_at hf).symm
      cases hd : (t i).isDir with
      | true =>
        have hanswer : s.Answers env (.getattr p) _ := .stat hp (h.rel.lookup_dir hf hd)
        rw [hattrs] at hanswer
        simp only [hd, if_true]
        exact hanswer
      | false =>
        obtain ⟨d, hl, hc⟩ := h.rel.lookup_file hf hd
        have hsize : (t i).size = d.bytes.length := by
          rw [(h.rel.wf i (findEntry_some hf).1).size_eq, hc]
        have hanswer : s.Answers env (.getattr p) _ := .stat hp hl
        rw [hattrs, InodeFS.statOf, ← hsize] at hanswer
        simp only [hd, Bool.false_eq_true, if_false]
        exact hanswer

theorem open_answers (h : InodeRel t s) (p : CStr) :
    s.Answers env (.openFile p) (query env t (.openFile p)) := by
  show s.Answers env _ ⟨memfsOpen t p, .nothing⟩
  unfold memfsOpen
  cases hf : findEntry t p with
  | none =>
    refine .notOpened fun hmem => ?_
    obtain ⟨i, hi⟩ := h.rel.mem_iff.mp hmem
    rw [hf] at hi
    cases hi
  | some i => exact .opened (h.rel.mem_iff.mpr ⟨i, hf⟩)

/-- `memfs_readdir` passes over an entry that is not used. -/
theorem used_of_readdirEmit {d n : CStr} {e : MemfsEntry} (h : readdirEmit d e = some n) :
    e.used = true := by
  cases hu : e.used with
  | true => rfl
  | false =>
    rw [readdirEmit, hu] at h
    cases h

theorem readdir_answers (h : InodeRel t s) (d : CStr) :
    s.Answers env (.readdir d) (query env t (.readdir d)) := by
  refine .readdir ?_ fun n => ?_
  · -- two entries that are listed under one name have one path
    refine List.Nodup.filterMap ?_ (List.nodup_finRange maxFiles)
    intro i j n hi hj
    have hui := used_of_readdirEmit hi
    have huj := used_of_readdirEmit hj
    have h1 := ((readdirEmit_iff hui).mp hi).1
    have h2 := ((readdirEmit_iff huj).mp hj).1
    exact h.rel.names i j hui huj (CStr.ext_bytes (h1.trans h2.symm))
  · rw [List.mem_filterMap]
    constructor
    · rintro ⟨i, -, hi⟩
      have hu := used_of_readdirEmit hi
      have hf : findEntry t (t i).name = some i := h.rel.names.findEntry_iff.mpr ⟨hu, rfl⟩
      exact ⟨(t i).name, h.rel.mem_iff.mpr ⟨i, hf⟩, (readdirEmit_iff hu).mp hi⟩
    · rintro ⟨q, hq, he⟩
      obtain ⟨i, hi⟩ := h.rel.mem_iff.mp hq
      obtain ⟨hu, rfl⟩ := findEntry_some hi
      exact ⟨i, List.mem_finRange i, (readdirEmit_iff hu).mpr he⟩

theorem query_answers (h : InodeRel t s) (q : Query) : s.Answers env q (query env t q) := by
  cases q with
  | getattr p => exact getattr_answers h p
  | readdir d => exact readdir_answers h d
  | openFile p => exact open_answers h p

end Looks

/-! ## Runs -/

/-- What the kernel guarantees of a call of any handler. -/
def HandlerCall (t : Table) : Call → Prop
  | .op c => KernelCall t c
  | .query _ _ => True

instance (t : Table) (c : Call) : Decidable (HandlerCall t c) := by
  cases c <;> (unfold HandlerCall; infer_instance)

theorem inodeRel_init : InodeRel Table.init InodeFS.empty :=
  ⟨rel_init, fun _ hi => absurd hi Bool.false_ne_true⟩

theorem step_sim (t : Table) (s : InodeFS) (c : Call) (h : InodeRel t s) (hk : HandlerCall t c) :
    ∃ r t' s', step t c = some (r, t') ∧ s.Step c r s' ∧ InodeRel t' s' := by
  cases c with
  | op c =>
    obtain ⟨t', hstep, hrel⟩ := opStep_sim t s.fs c h.rel hk
    exact ⟨_, t', _, hstep, .op c, hrel, attrs_step h hk hstep⟩
  | query q env => exact ⟨_, t, s, rfl, .query (query_answers h q), h⟩

/-- On every run of calls the kernel makes, of all the handlers, every reply is one that the
reference filesystem gives: contents, kinds, sizes, owners, modes and times, and the entries of
directories. -/
theorem memfs_refines_inodeFS (cs : List Call)
    (h : Machine.Legal step HandlerCall Table.init cs) :
    ∃ rs t s, Machine.exec step Table.init cs = some (rs, t) ∧
      Machine.Runs InodeFS.Step InodeFS.empty cs rs s := by
  obtain ⟨rs, t, s, hexec, hruns, -⟩ :=
    Machine.Legal.runs step_sim cs Table.init InodeFS.empty inodeRel_init h
  exact ⟨rs, t, s, hexec, hruns⟩

/-- A file is written, read and truncated at different times, and its directory listed. -/
theorem memfs_refines_inodeFS_times :
    let env : Int → Env := fun now => ⟨now, 7, 8, true, fun _ => 0xAA⟩
    let d : CStr := ⟨[slash, 0x64], by decide⟩
    let f : CStr := ⟨[slash, 0x64, slash, 0x66], by decide⟩
    let cs : List Call := [.op ⟨.mkdir d 0o755, env 1⟩, .op ⟨.create f 0o100644, env 2⟩,
      .op ⟨.write f [1, 2, 3] 0, env 3⟩, .op ⟨.read f 8 1, env 4⟩, .op ⟨.read f 8 3, env 5⟩,
      .query (.getattr f) (env 6), .query (.readdir d) (env 6), .query (.readdir root) (env 6),
      .op ⟨.truncate f 1, env 7⟩, .query (.getattr f) (env 8), .query (.openFile d) (env 8)]
    ∃ rs t s, Machine.exec step Table.init cs = some (rs, t) ∧
      Machine.Runs InodeFS.Step InodeFS.empty cs rs s :=
  memfs_refines_inodeFS _ (by decide +kernel)

end Memfs
