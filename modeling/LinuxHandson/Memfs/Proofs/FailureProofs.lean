import LinuxHandson.Memfs.Failures
import LinuxHandson.Memfs.Proofs.ContentsProofs
import LinuxHandson.Memfs.Proofs.KeyProofs

/-!
# Proofs: calls that fail

`memfs_read`, `memfs_write` and `memfs_truncate` look at one entry and change this entry only. As long as
no call loses a block to a failing `realloc`, every block is as long as its size, and a call that does
not succeed has changed nothing but perhaps the block of an empty file, which no call can see.
-/

namespace Memfs

open CLib

variable {t t' : Table} {c : OpCall} {p : CStr} {i : Fin maxFiles} {e e' : MemfsEntry}

/-! ## Calls that access one entry -/

/-- The path of the file that a call reads, writes or truncates. -/
def Op.accesses : Op → Option CStr
  | .write p _ _ => some p
  | .read p _ _ => some p
  | .truncate p _ => some p
  | _ => none

/-- The reply of such a call when there is no file. -/
def absentReply (c : OpCall) : Reply :=
  match c.op with
  | .read _ _ _ => ⟨-ENOENT, .bytes []⟩
  | _ => ⟨-ENOENT, .nothing⟩

/-- `memfs_read` on the entry of the path. -/
def readAt (env : Env) (e : MemfsEntry) (size : Nat) (offset : Int) : Option (Reply × MemfsEntry) :=
  if offset ≥ offT e.size then some (⟨0, .bytes []⟩, e)
  else
    (memcpyFrom e.data offset
      (if sizeT (offset + size) > e.size then sizeT (e.size - offset) else size)).map fun bytes =>
        (⟨cInt (if sizeT (offset + size) > e.size then sizeT (e.size - offset) else size : Nat),
          .bytes bytes⟩, { e with atime := env.now })

/-- `memfs_write` on the entry of the path. -/
def writeAt (env : Env) (e : MemfsEntry) (buf : List UInt8) (offset : Int) :
    Option (Reply × MemfsEntry) :=
  if sizeT (offset + buf.length) > maxDataSize then some (⟨-ENOSPC, .nothing⟩, e)
  else if sizeT (offset + buf.length) > e.size then
    if realloc env.heap e.data (sizeT (offset + buf.length)) = none then
      some (⟨-ENOMEM, .nothing⟩, { e with data := none })
    else
      (if offset > offT e.size then
        memset (realloc env.heap e.data (sizeT (offset + buf.length))) e.size 0 (sizeT (offset - e.size))
      else some (realloc env.heap e.data (sizeT (offset + buf.length)))).bind fun data =>
        (memcpyTo data offset buf).map fun data =>
          (⟨cInt buf.length, .nothing⟩,
            { e with data := data, size := sizeT (offset + buf.length), mtime := env.now })
  else
    (memcpyTo e.data offset buf).map fun data =>
      (⟨cInt buf.length, .nothing⟩, { e with data := data, mtime := env.now })

/-- `memfs_truncate` on the entry of the path. -/
def truncateAt (env : Env) (e : MemfsEntry) (size : Int) : Option (Reply × MemfsEntry) :=
  if sizeT size > maxDataSize then some (⟨-ENOSPC, .nothing⟩, e)
  else
    (if size > offT e.size then
      memset (realloc env.heap e.data (sizeT size)) e.size 0 (sizeT (size - e.size))
    else some (realloc env.heap e.data (sizeT size))).map fun data =>
      (⟨0, .nothing⟩, { e with data := data, size := sizeT size, mtime := env.now })

/-- The call on the entry of its path. -/
def access (c : OpCall) (e : MemfsEntry) : Option (Reply × MemfsEntry) :=
  match c.op with
  | .write _ buf offset => writeAt c.env e buf offset
  | .read _ size offset => readAt c.env e size offset
  | .truncate _ size => truncateAt c.env e size
  | _ => none

theorem opStep_absent (h : c.op.accesses = some p) (hf : findEntry t p = none) :
    opStep t c = some (absentReply c, t) := by
  obtain ⟨op, env⟩ := c
  cases op with
  | write q buf off =>
    cases h
    simp only [opStep, memfsWrite_none hf]
    rfl
  | read q size off =>
    cases h
    simp only [opStep, memfsRead_none hf]
    rfl
  | truncate q size =>
    cases h
    simp only [opStep, memfsTruncate_none hf]
    rfl
  | _ => cases h

/-- What the three handlers do to the entry of the path is all that they do. -/
theorem opStep_access (h : c.op.accesses = some p) (hf : findEntry t p = some i) :
    opStep t c = (access c (t i)).map fun x => (x.1, Function.update t i x.2) := by
  have hsame : Function.update t i (t i) = t := Function.update_eq_self i t
  obtain ⟨op, env⟩ := c
  cases op with
  | write q buf off =>
    cases h
    simp only [opStep, memfsWrite, hf, access, writeAt]
    split
    · simp only [Option.map_some, hsame]
    · split
      · split
        · simp only [Option.map_some]
        · simp only [Option.bind_eq_bind, Option.map_bind]
          refine congrArg _ (funext fun data => ?_)
          simp only [Function.comp_apply]
          cases memcpyTo data off buf with
          | none => rfl
          | some d => simp only [Option.bind_some, Option.map_some]
      · cases memcpyTo (t i).data off buf with
        | none => rfl
        | some d => simp only [Option.bind_eq_bind, Option.bind_some, Option.map_some]
  | read q size off =>
    cases h
    simp only [opStep, memfsRead, hf, access, readAt]
    split
    · simp only [Option.map_some, hsame]
    · cases memcpyFrom (t i).data off _ with
      | none => rfl
      | some bytes => simp only [Option.map_some]
  | truncate q size =>
    cases h
    simp only [opStep, memfsTruncate, hf, access, truncateAt]
    split
    · simp only [Option.map_some, hsame]
    · simp only [Option.bind_eq_bind, Option.map_bind, Option.map_map]
      generalize (if size > offT ((t i).size : Int) then _ else _ : Option Ptr) = r
      cases r with
      | none => rfl
      | some d => rfl
  | _ => cases h

/-- The calls that make and remove entries. -/
def onNames (c : OpCall) (t : Table) : Int × Table :=
  match c.op with
  | .create p mode => makeEntry c.env t p false mode
  | .mkdir p mode => makeEntry c.env t p true mode
  | .unlink p => memfsUnlink t p
  | .rmdir p => memfsRmdir t p
  | _ => (0, t)

theorem opStep_names (h : c.op.accesses = none) :
    opStep t c = some (⟨(onNames c t).1, .nothing⟩, (onNames c t).2) := by
  obtain ⟨op, env⟩ := c
  cases op with
  | create p mode => simp only [opStep, memfsCreate_eq, onNames]
  | mkdir p mode => simp only [opStep, memfsMkdir_eq, onNames]
  | unlink p => rfl
  | rmdir p => rfl
  | _ => cases h

/-! ## Entries that no call tells apart -/

/-- The entries differ at most in that one has an empty block and the other none. -/
def EntryAlike (e e' : MemfsEntry) : Prop :=
  ∃ d, e' = { e with data := d } ∧
    (d = e.data ∨ (e.size = 0 ∧ contents e.data = [] ∧ contents d = []))

theorem EntryAlike.refl (e : MemfsEntry) : EntryAlike e e := ⟨e.data, rfl, .inl rfl⟩

theorem EntryAlike.shape (h : EntryAlike e e') : SameShape e e' := by
  obtain ⟨d, rfl, -⟩ := h
  exact ⟨rfl, rfl, rfl⟩

theorem realloc_of_empty {h : Heap} {d : Ptr} (hd : contents d = []) {n : Nat} (hn : 0 < n) :
    realloc h d n = realloc h none n := by
  cases d with
  | none => rfl
  | some b =>
    obtain rfl : b = [] := hd
    simp only [realloc, if_neg (Nat.ne_of_gt hn), List.take_nil, List.nil_append, List.length_nil,
      Nat.sub_zero, Nat.zero_add]

theorem contents_realloc_zero {h : Heap} {d : Ptr} (hd : contents d = []) :
    contents (realloc h d 0) = [] := by
  cases d with
  | none =>
    simp only [realloc, List.range_zero, List.map_nil]
    split
    · rfl
    · rfl
  | some b => rfl

/-- What a call does to two entries is the same, or no call tells it apart. -/
def AccessAlike (c : OpCall) (e e' : MemfsEntry) : Prop :=
  (access c e = none ∧ access c e' = none) ∨
    ∃ r u u', access c e = some (r, u) ∧ access c e' = some (r, u') ∧ EntryAlike u u'

theorem accessAlike_of_eq (h : access c e' = access c e) : AccessAlike c e e' := by
  rw [AccessAlike, h]
  rcases access c e with _ | ⟨r, u⟩
  · exact .inl ⟨rfl, rfl⟩
  · exact .inr ⟨r, u, u, rfl, rfl, .refl u⟩

/-- A write that fits makes the same of an empty block as of none. -/
theorem writeAt_empty {env : Env} {buf : List UInt8} {off : Int} {d : Ptr} (hsize : e.size = 0)
    (hold : contents e.data = []) (hnew : contents d = [])
    (hfit : ¬ sizeT (off + buf.length) > maxDataSize) (hpos : 0 < sizeT (off + buf.length)) :
    writeAt env { e with data := d } buf off = writeAt env e buf off := by
  have hgrow : sizeT (off + buf.length) > e.size := by
    rw [hsize]
    exact hpos
  simp only [writeAt, if_neg hfit, if_pos hgrow, realloc_of_empty hold hpos,
    realloc_of_empty hnew hpos]

theorem truncateAt_empty {env : Env} {size : Int} {d : Ptr} (hold : contents e.data = [])
    (hnew : contents d = []) (hfit : ¬ sizeT size > maxDataSize) (hpos : 0 < sizeT size) :
    truncateAt env { e with data := d } size = truncateAt env e size := by
  simp only [truncateAt, if_neg hfit, realloc_of_empty hold hpos, realloc_of_empty hnew hpos]

theorem truncateAt_zero {env : Env} {size : Int} (hle : e.size ≤ maxDataSize) (h0 : size ≤ 0)
    (hz : sizeT size = 0) :
    truncateAt env e size =
      some (⟨0, .nothing⟩, { e with data := realloc env.heap e.data 0, size := 0, mtime := env.now }) := by
  have hmax := maxDataSize_lt
  have hoff : offT (e.size : Int) = e.size := offT_of_lt (by omega) (by omega)
  rw [truncateAt, hz, hoff, if_neg (by omega), if_neg (by omega)]
  rfl

/-- A call replies the same on both and leaves entries that again no call tells apart. -/
theorem access_alike (h : EntryAlike e e') (hargs : KernelArgs c) : AccessAlike c e e' := by
  obtain ⟨d, rfl, rfl | ⟨hsize, hold, hnew⟩⟩ := h
  · exact accessAlike_of_eq rfl
  · obtain ⟨op, env⟩ := c
    cases op with
    | write q buf off =>
      obtain ⟨h1, h63, h0, hoff⟩ := hargs
      have hpos : 0 < sizeT (off + buf.length) := by
        have := sizeT_of_lt (x := off + buf.length) (by omega) (by omega)
        omega
      by_cases hfit : sizeT (off + buf.length) > maxDataSize
      · refine .inr ⟨⟨-ENOSPC, .nothing⟩, e, { e with data := d }, if_pos hfit, if_pos hfit, ?_⟩
        exact ⟨d, rfl, .inr ⟨hsize, hold, hnew⟩⟩
      · exact accessAlike_of_eq (writeAt_empty hsize hold hnew hfit hpos)
    | read q size off =>
      have hend : off ≥ offT e.size := by
        rw [hsize]
        exact hargs.2.1
      refine .inr ⟨⟨0, .bytes []⟩, e, { e with data := d }, if_pos hend, if_pos hend, ?_⟩
      exact ⟨d, rfl, .inr ⟨hsize, hold, hnew⟩⟩
    | truncate q size =>
      by_cases hfit : sizeT size > maxDataSize
      · refine .inr ⟨⟨-ENOSPC, .nothing⟩, e, { e with data := d }, if_pos hfit, if_pos hfit, ?_⟩
        exact ⟨d, rfl, .inr ⟨hsize, hold, hnew⟩⟩
      · rcases Nat.eq_zero_or_pos (sizeT size) with hz | hpos
        · have h0 : size ≤ 0 := by
            have := sizeT_of_lt hargs.1 (by have := hargs.2; omega)
            omega
          have hle : e.size ≤ maxDataSize := by
            rw [hsize]
            exact Nat.zero_le _
          refine .inr ⟨_, _, _, truncateAt_zero hle h0 hz, truncateAt_zero hle h0 hz, ?_⟩
          exact ⟨_, rfl, .inr ⟨rfl, contents_realloc_zero hold, contents_realloc_zero hnew⟩⟩
        · exact accessAlike_of_eq (truncateAt_empty hold hnew hfit hpos)
    | _ => exact accessAlike_of_eq rfl

/-! ## Tables that no call tells apart -/

/-- No call tells any two entries apart. -/
def Alike (t t' : Table) : Prop := ∀ i, EntryAlike (t i) (t' i)

theorem Alike.refl (t : Table) : Alike t t := fun i => .refl (t i)

theorem Alike.update (h : Alike t t') (he : EntryAlike e e') :
    Alike (Function.update t i e) (Function.update t' i e') := by
  intro j
  by_cases hj : j = i
  · subst hj
    rw [Function.update_self, Function.update_self]
    exact he
  · rw [Function.update_of_ne hj, Function.update_of_ne hj]
    exact h j

theorem Alike.findEntry_eq (h : Alike t t') (p : CStr) : findEntry t' p = findEntry t p :=
  findEntry_congr (fun i => (h i).shape) p

theorem Alike.freeSlot_eq (h : Alike t t') : freeSlot t' = freeSlot t := by
  unfold freeSlot SlotTable.first
  congr 1
  funext i
  simp only [(h i).shape.1]

theorem Alike.rmdirBlocks_eq (h : Alike t t') (p : CStr) (i j : Fin maxFiles) :
    rmdirBlocks t' p i j = rmdirBlocks t p i j := by
  simp only [rmdirBlocks, (h j).shape.1, (h j).shape.2.1]

theorem Alike.dropEntry (h : Alike t t') (i : Fin maxFiles) :
    Alike (dropEntry t i) (dropEntry t' i) := by
  refine h.update ?_
  obtain ⟨d, hd, hsame⟩ := h i
  rw [hd]
  exact ⟨d, rfl, hsame⟩

/-- What a call does to two tables is the same, or no call tells it apart. -/
def StepAlike (c : OpCall) (t t' : Table) : Prop :=
  (opStep t c = none ∧ opStep t' c = none) ∨
    ∃ r u u', opStep t c = some (r, u) ∧ opStep t' c = some (r, u') ∧ Alike u u'

theorem stepAlike_access (h : Alike t t') (hp : c.op.accesses = some p) (hargs : KernelArgs c) :
    StepAlike c t t' := by
  have hfind := h.findEntry_eq p
  rcases hf : findEntry t p with _ | i
  · rw [hf] at hfind
    exact .inr ⟨_, t, t', opStep_absent hp hf, opStep_absent hp hfind, h⟩
  · rw [hf] at hfind
    rw [StepAlike, opStep_access hp hf, opStep_access hp hfind]
    rcases access_alike (h i) hargs with ⟨ht, ht'⟩ | ⟨r, u, u', ht, ht', hu⟩
    · rw [ht, ht']
      exact .inl ⟨rfl, rfl⟩
    · rw [ht, ht']
      exact .inr ⟨r, _, _, rfl, rfl, h.update hu⟩

theorem makeEntry_alike (h : Alike t t') (env : Env) (p : CStr) (d : Bool) (mode : Nat) :
    (makeEntry env t' p d mode).1 = (makeEntry env t p d mode).1 ∧
      Alike (makeEntry env t p d mode).2 (makeEntry env t' p d mode).2 := by
  unfold makeEntry
  rw [h.findEntry_eq p, h.freeSlot_eq]
  cases findEntry t p with
  | some i => exact ⟨rfl, h⟩
  | none =>
    cases freeSlot t with
    | none => exact ⟨rfl, h⟩
    | some i => exact ⟨rfl, h.update (.refl _)⟩

theorem memfsUnlink_alike (h : Alike t t') (p : CStr) :
    (memfsUnlink t' p).1 = (memfsUnlink t p).1 ∧ Alike (memfsUnlink t p).2 (memfsUnlink t' p).2 := by
  have hfind := h.findEntry_eq p
  rcases hf : findEntry t p with _ | i
  · rw [hf] at hfind
    rw [memfsUnlink_none hf, memfsUnlink_none hfind]
    exact ⟨rfl, h⟩
  · rw [hf] at hfind
    have hdir := (h i).shape.2.2
    cases hd : (t i).isDir with
    | true =>
      rw [memfsUnlink_dir hf hd, memfsUnlink_dir hfind (hdir.trans hd)]
      exact ⟨rfl, h⟩
    | false =>
      rw [memfsUnlink_file hf hd, memfsUnlink_file hfind (hdir.trans hd)]
      exact ⟨rfl, h.dropEntry i⟩

theorem memfsRmdir_alike (h : Alike t t') (p : CStr) :
    (memfsRmdir t' p).1 = (memfsRmdir t p).1 ∧ Alike (memfsRmdir t p).2 (memfsRmdir t' p).2 := by
  have hfind := h.findEntry_eq p
  rcases hf : findEntry t p with _ | i
  · rw [hf] at hfind
    rw [memfsRmdir_none hf, memfsRmdir_none hfind]
    exact ⟨rfl, h⟩
  · rw [hf] at hfind
    have hdir := (h i).shape.2.2
    cases hd : (t i).isDir with
    | false =>
      rw [memfsRmdir_file hf hd, memfsRmdir_file hfind (hdir.trans hd)]
      exact ⟨rfl, h⟩
    | true =>
      by_cases hb : ∃ j, rmdirBlocks t p i j = true
      · obtain ⟨j, hj⟩ := hb
        rw [memfsRmdir_blocked hf hd hj,
          memfsRmdir_blocked hfind (hdir.trans hd) ((h.rmdirBlocks_eq p i j).trans hj)]
        exact ⟨rfl, h⟩
      · have hb : ∀ j, rmdirBlocks t p i j = false := fun j =>
          Bool.eq_false_iff.mpr fun hj => hb ⟨j, hj⟩
        rw [memfsRmdir_empty hf hd hb,
          memfsRmdir_empty hfind (hdir.trans hd) fun j => (h.rmdirBlocks_eq p i j).trans (hb j)]
        exact ⟨rfl, h.dropEntry i⟩

theorem onNames_alike (h : Alike t t') (c : OpCall) :
    (onNames c t').1 = (onNames c t).1 ∧ Alike (onNames c t).2 (onNames c t').2 := by
  unfold onNames
  split
  · exact makeEntry_alike h _ _ false _
  · exact makeEntry_alike h _ _ true _
  · exact memfsUnlink_alike h _
  · exact memfsRmdir_alike h _
  · exact ⟨rfl, h⟩

/-- A call replies the same on both tables and leaves tables that again no call tells apart. -/
theorem opStep_alike (h : Alike t t') (hargs : KernelArgs c) : StepAlike c t t' := by
  rcases hp : c.op.accesses with _ | p
  · obtain ⟨hret, halike⟩ := onNames_alike h c
    refine .inr ⟨_, _, _, opStep_names hp, ?_, halike⟩
    rw [opStep_names hp, hret]
  · exact stepAlike_access h hp hargs

theorem Alike.sameReplies (h : Alike t t') : SameReplies t t' := by
  intro cs hcs
  have hstep : ∀ s u d, Alike s u → KernelArgs d → StepAlike d s u := fun _ _ _ => opStep_alike
  exact (Machine.exec_same hstep cs hcs t t' h).symm

theorem Alike.sameEntries (h : Alike t t') : SameEntries t t' := by
  intro i
  obtain ⟨d, hd, hsame⟩ := h i
  refine ⟨d, hd, ?_⟩
  rcases hsame with rfl | ⟨-, hold, hnew⟩
  · rfl
  · rw [hold, hnew]

/-! ## Runs in which no block is lost -/

/-- The block of every entry is as long as its size. -/
def TableWf (t : Table) : Prop := ∀ i, (t i).used = true → EntryWf (t i)

theorem tableWf_init : TableWf Table.init := fun _ hi => by cases hi

theorem TableWf.update (h : TableWf t) (he : e.used = true → EntryWf e) :
    TableWf (Function.update t i e) := by
  intro j hj
  by_cases hji : j = i
  · subst hji
    rw [Function.update_self] at hj ⊢
    exact he hj
  · rw [Function.update_of_ne hji] at hj ⊢
    exact h j hj

/-- The call returns, keeps the blocks as long as the sizes, and if it does not succeed returns an error
and leaves a table that no call tells from the one before. -/
def StepsWell (t : Table) (c : OpCall) : Prop :=
  ∃ r t', opStep t c = some (r, t') ∧ TableWf t' ∧
    (r.ret < 0 ∨ ReallocFails t c → r.ret < 0 ∧ Alike t t')

/-- A call that is refused, without a `realloc` or before it. -/
theorem stepsWell_refused {r : Reply} (h : TableWf t) (hr : r.ret < 0)
    (hs : opStep t c = some (r, t)) : StepsWell t c :=
  ⟨r, t, hs, h, fun _ => ⟨hr, .refl t⟩⟩

/-- A call that succeeds, and whose `realloc` does not fail. -/
theorem stepsWell_done {r : Reply} (hr : 0 ≤ r.ret) (hs : opStep t c = some (r, t')) (h : TableWf t')
    (hno : ¬ ReallocFails t c) : StepsWell t c :=
  ⟨r, t', hs, h, fun hfail => hfail.elim (fun hneg => absurd hneg (Int.not_lt.mpr hr)) (absurd · hno)⟩

theorem not_reallocFails_names (h : c.op.accesses = none) : ¬ ReallocFails t c := by
  rintro ⟨i, n, hre, -⟩
  obtain ⟨op, env⟩ := c
  cases op with
  | create p mode => cases hre
  | mkdir p mode => cases hre
  | unlink p => cases hre
  | rmdir p => cases hre
  | _ => cases h

theorem TableWf.dropEntry (h : TableWf t) (i : Fin maxFiles) : TableWf (dropEntry t i) :=
  h.update fun hu => by cases hu

/-- A call that makes or removes an entry is refused or succeeds. -/
def NamesDone (t : Table) (x : Int × Table) : Prop := (x.1 < 0 ∧ x.2 = t) ∨ (x.1 = 0 ∧ TableWf x.2)

theorem namesDone_refused {r : Int} (h : r < 0) : NamesDone t (r, t) := .inl ⟨h, rfl⟩

theorem makeEntry_done (h : TableWf t) (env : Env) (p : CStr) (d : Bool) (mode : Nat) :
    NamesDone t (makeEntry env t p d mode) := by
  unfold makeEntry
  cases findEntry t p with
  | some i => exact namesDone_refused EEXIST_neg
  | none =>
    cases freeSlot t with
    | none => exact namesDone_refused ENOSPC_neg
    | some i => exact .inr ⟨rfl, h.update fun _ => entryWf_newEntry env p d mode⟩

theorem memfsUnlink_done (h : TableWf t) (p : CStr) : NamesDone t (memfsUnlink t p) := by
  rcases hf : findEntry t p with _ | i
  · rw [memfsUnlink_none hf]
    exact namesDone_refused ENOENT_neg
  · cases hd : (t i).isDir with
    | true =>
      rw [memfsUnlink_dir hf hd]
      exact namesDone_refused EISDIR_neg
    | false =>
      rw [memfsUnlink_file hf hd]
      exact .inr ⟨rfl, h.dropEntry i⟩

theorem memfsRmdir_done (h : TableWf t) (p : CStr) : NamesDone t (memfsRmdir t p) := by
  rcases hf : findEntry t p with _ | i
  · rw [memfsRmdir_none hf]
    exact namesDone_refused ENOENT_neg
  · cases hd : (t i).isDir with
    | false =>
      rw [memfsRmdir_file hf hd]
      exact namesDone_refused ENOTDIR_neg
    | true =>
      by_cases hb : ∃ j, rmdirBlocks t p i j = true
      · obtain ⟨j, hj⟩ := hb
        rw [memfsRmdir_blocked hf hd hj]
        exact namesDone_refused ENOTEMPTY_neg
      · have hb : ∀ j, rmdirBlocks t p i j = false := fun j =>
          Bool.eq_false_iff.mpr fun hj => hb ⟨j, hj⟩
        rw [memfsRmdir_empty hf hd hb]
        exact .inr ⟨rfl, h.dropEntry i⟩

theorem onNames_done (h : TableWf t) (c : OpCall) : NamesDone t (onNames c t) := by
  unfold onNames
  split
  · exact makeEntry_done h _ _ false _
  · exact makeEntry_done h _ _ true _
  · exact memfsUnlink_done h _
  · exact memfsRmdir_done h _
  · exact .inr ⟨rfl, h⟩

theorem stepsWell_names (h : TableWf t) (hp : c.op.accesses = none) : StepsWell t c := by
  have hs := @opStep_names t c hp
  rcases onNames_done h c with ⟨hneg, hsame⟩ | ⟨hzero, hwf⟩
  · rw [hsame] at hs
    exact stepsWell_refused h hneg hs
  · exact stepsWell_done (Int.le_of_eq hzero.symm) hs hwf (not_reallocFails_names hp)

section Access

variable {env : Env} {buf : List UInt8} {off : Int} {o : Nat}

theorem reallocFails_write (hf : findEntry t p = some i) :
    ReallocFails t ⟨.write p buf off, env⟩ ↔
      sizeT (off + buf.length) ≤ maxDataSize ∧ (t i).size < sizeT (off + buf.length) ∧
        env.heap.ok = false := by
  constructor
  · rintro ⟨j, m, hre, -, hok⟩
    simp only [reallocs, hf, Option.bind_some] at hre
    split at hre
    · next hfit => exact ⟨hfit.1, hfit.2, hok⟩
    · cases hre
  · rintro ⟨hfit, hgrow, hok⟩
    refine ⟨i, sizeT (off + buf.length), ?_, Nat.zero_lt_of_lt hgrow, hok⟩
    simp only [reallocs, hf, Option.bind_some]
    exact if_pos ⟨hfit, hgrow⟩

theorem reallocFails_truncate (hf : findEntry t p = some i) {size : Int} :
    ReallocFails t ⟨.truncate p size, env⟩ ↔
      sizeT size ≤ maxDataSize ∧ 0 < sizeT size ∧ env.heap.ok = false := by
  constructor
  · rintro ⟨j, m, hre, hpos, hok⟩
    simp only [reallocs, hf, Option.bind_some] at hre
    split at hre
    · next hfit =>
      cases hre
      exact ⟨hfit, hpos, hok⟩
    · cases hre
  · rintro ⟨hfit, hpos, hok⟩
    refine ⟨i, sizeT size, ?_, hpos, hok⟩
    simp only [reallocs, hf, Option.bind_some]
    exact if_pos hfit

theorem not_reallocFails_absent (hf : findEntry t p = none) (hp : c.op.accesses = some p) :
    ¬ ReallocFails t c := by
  rintro ⟨i, n, hre, -⟩
  obtain ⟨op, env⟩ := c
  cases op with
  | write q buf off =>
    cases hp
    simp only [reallocs, hf, Option.bind_none] at hre
    cases hre
  | truncate q size =>
    cases hp
    simp only [reallocs, hf, Option.bind_none] at hre
    cases hre
  | read q size off => cases hre
  | _ => cases hp

theorem realloc_fails {h : Heap} (hok : h.ok = false) (d : Ptr) (n : Nat) : realloc h d n = none := by
  cases d with
  | none => simp [realloc, hok]
  | some b => simp [realloc, hok]

theorem sizeT_write (ho : o < 2 ^ 63) (hb : buf.length < 2 ^ 63) :
    sizeT ((o : Int) + buf.length) = o + buf.length := by
  rw [← Int.natCast_add]
  exact sizeT_natCast (by omega)

/-- A write that needs a larger block and does not get one. -/
theorem opStep_nomem (hf : findEntry t p = some i) (hok : env.heap.ok = false)
    (hfit : sizeT (off + buf.length) ≤ maxDataSize) (hgrow : (t i).size < sizeT (off + buf.length)) :
    opStep t ⟨.write p buf off, env⟩ =
      some (⟨-ENOMEM, .nothing⟩, Function.update t i { t i with data := none }) := by
  rw [opStep_access (p := p) rfl hf, access]
  simp only [writeAt]
  rw [if_neg (Nat.not_lt.mpr hfit), if_pos hgrow, if_pos (realloc_fails hok _ _)]
  rfl

theorem stepsWell_write (h : TableWf t) (hargs : KernelArgs ⟨.write p buf off, env⟩)
    (hh : Harmless t ⟨.write p buf off, env⟩) : StepsWell t ⟨.write p buf off, env⟩ := by
  obtain ⟨h1, h63, h0, hoff⟩ := hargs
  obtain ⟨o, rfl⟩ := Int.eq_ofNat_of_zero_le h0
  have hsz : sizeT ((o : Int) + buf.length) = o + buf.length := sizeT_write (by omega) h63
  rcases hf : findEntry t p with _ | i
  · exact stepsWell_refused h ENOENT_neg (opStep_absent rfl hf)
  · have hwf := h i (findEntry_some hf).1
    by_cases hfit : o + buf.length > maxDataSize
    · refine stepsWell_refused h ENOSPC_neg (r := ⟨-ENOSPC, .nothing⟩) ?_
      simp only [opStep, memfsWrite_nospace hf h63 (by omega) hfit, Option.map_some]
    · by_cases hgrow : o + buf.length > (t i).size
      · cases hok : env.heap.ok with
        | true =>
          obtain ⟨e, hw, -, he, -⟩ := memfsWrite_grow hf hwf hok (Nat.le_of_not_gt hfit) hgrow
          have hs : opStep t ⟨.write p buf o, env⟩ =
              some (⟨buf.length, .nothing⟩, Function.update t i e) := by
            simp only [opStep, hw, Option.map_some]
          refine stepsWell_done (Int.natCast_nonneg _) hs (h.update fun _ => he) ?_
          rw [reallocFails_write hf, hok]
          rintro ⟨-, -, hno⟩
          cases hno
        | false =>
          have hfails : ReallocFails t ⟨.write p buf o, env⟩ := by
            rw [reallocFails_write hf, hsz]
            exact ⟨Nat.le_of_not_gt hfit, hgrow, hok⟩
          obtain ⟨q, b, f, j, hop, hj, hempty⟩ := hh hfails
          cases hop
          rw [hf] at hj
          cases hj
          have hcont : contents (t i).data = [] :=
            List.eq_nil_of_length_eq_zero (hwf.size_eq.symm.trans hempty)
          refine ⟨_, _, opStep_nomem hf hok (by rw [hsz]; omega) (by rw [hsz]; exact hgrow), ?_, ?_⟩
          · exact h.update fun _ => ⟨hempty, hwf.size_le⟩
          · refine fun _ => ⟨ENOMEM_neg, ?_⟩
            have hupdate := (Alike.refl t).update (i := i)
              (⟨none, rfl, .inr ⟨hempty, hcont, rfl⟩⟩ : EntryAlike (t i) { t i with data := none })
            rw [Function.update_eq_self] at hupdate
            exact hupdate
      · obtain ⟨e, hw, -, he, -⟩ : ∃ e, memfsWrite env t p buf o = _ ∧ _ :=
          memfsWrite_inside hf hwf h1 (Nat.le_of_not_gt hgrow)
        have hs : opStep t ⟨.write p buf o, env⟩ =
            some (⟨buf.length, .nothing⟩, Function.update t i e) := by
          simp only [opStep, hw, Option.map_some]
        refine stepsWell_done (Int.natCast_nonneg _) hs (h.update fun _ => he) ?_
        rw [reallocFails_write hf, hsz]
        rintro ⟨-, hlt, -⟩
        exact hgrow hlt

theorem stepsWell_read (h : TableWf t) {size : Nat} (hargs : KernelArgs ⟨.read p size off, env⟩) :
    StepsWell t ⟨.read p size off, env⟩ := by
  obtain ⟨h63, h0, hoff⟩ := hargs
  obtain ⟨o, rfl⟩ := Int.eq_ofNat_of_zero_le h0
  rcases hf : findEntry t p with _ | i
  · exact stepsWell_refused h ENOENT_neg (opStep_absent rfl hf)
  · obtain ⟨e, hr, -, he, -⟩ : ∃ e, memfsRead env t p size o = _ ∧ _ :=
      memfsRead_ok hf (h i (findEntry_some hf).1) h63 (by omega)
    have hs : opStep t ⟨.read p size o, env⟩ =
        some (⟨(pread (contents (t i).data) o size).length,
          .bytes (pread (contents (t i).data) o size)⟩, Function.update t i e) := by
      simp only [opStep, hr, Option.map_some]
    refine stepsWell_done (Int.natCast_nonneg _) hs (h.update fun _ => he) ?_
    rintro ⟨j, n, hre, -⟩
    cases hre

theorem stepsWell_truncate (h : TableWf t) {size : Int} (hargs : KernelArgs ⟨.truncate p size, env⟩)
    (hh : Harmless t ⟨.truncate p size, env⟩) : StepsWell t ⟨.truncate p size, env⟩ := by
  obtain ⟨h0, h63⟩ := hargs
  obtain ⟨n, rfl⟩ := Int.eq_ofNat_of_zero_le h0
  have hsz : sizeT (n : Int) = n := sizeT_natCast (by omega)
  rcases hf : findEntry t p with _ | i
  · exact stepsWell_refused h ENOENT_neg (opStep_absent rfl hf)
  · have hwf := h i (findEntry_some hf).1
    by_cases hfit : n > maxDataSize
    · refine stepsWell_refused h ENOSPC_neg (r := ⟨-ENOSPC, .nothing⟩) ?_
      simp only [opStep, memfsTruncate_nospace hf (by omega) hfit, Option.map_some]
    · have hno : ¬ ReallocFails t ⟨.truncate p n, env⟩ := by
        intro hfails
        obtain ⟨q, b, f, j, hop, -⟩ := hh hfails
        cases hop
      cases hok : env.heap.ok with
      | true =>
        obtain ⟨e, hw, -, he, -⟩ := memfsTruncate_ok hf hwf hok (Nat.le_of_not_gt hfit)
        have hs : opStep t ⟨.truncate p n, env⟩ =
            some (⟨0, .nothing⟩, Function.update t i e) := by
          simp only [opStep, hw, Option.map_some]
        exact stepsWell_done (Int.le_refl 0) hs (h.update fun _ => he) hno
      | false =>
        have hz : n = 0 := by
          by_contra hpos
          refine hno ((reallocFails_truncate hf).mpr ?_)
          rw [hsz]
          exact ⟨Nat.le_of_not_gt hfit, Nat.pos_of_ne_zero hpos, hok⟩
        subst hz
        have hs : opStep t ⟨.truncate p (0 : Nat), env⟩ = some (⟨0, .nothing⟩,
            Function.update t i { t i with data := none, size := 0, mtime := env.now }) := by
          have htrunc : truncateAt env (t i) (0 : Nat) = _ :=
            truncateAt_zero hwf.size_le (Int.le_refl (0 : Nat)) hsz
          rw [opStep_access (p := p) rfl hf]
          show (truncateAt env (t i) (0 : Nat)).map _ = _
          rw [htrunc, realloc_fails hok]
          rfl
        refine stepsWell_done (Int.le_refl 0) hs (h.update fun _ => ?_) hno
        exact ⟨rfl, Nat.zero_le _⟩

end Access

/-- In a table whose blocks are as long as their sizes, a harmless call goes well. -/
theorem stepsWell_of_harmless (h : TableWf t) (hargs : KernelArgs c) (hh : Harmless t c) :
    StepsWell t c := by
  rcases hp : c.op.accesses with _ | p
  · exact stepsWell_names h hp
  · obtain ⟨op, env⟩ := c
    cases op with
    | write q buf off => exact stepsWell_write h hargs hh
    | read q size off => exact stepsWell_read h hargs
    | truncate q size => exact stepsWell_truncate h hargs hh
    | _ => cases hp

section Losses

variable {env : Env} {r : Reply}

/-- A write whose `realloc` fails takes the contents of the file with it. -/
theorem size_eq_zero_of_nomem {buf : List UInt8} {off : Int} (h : TableWf t)
    (hf : findEntry t p = some i) (hfails : ReallocFails t ⟨.write p buf off, env⟩)
    (hs : opStep t ⟨.write p buf off, env⟩ = some (r, t')) (hsame : SameEntries t t') :
    (t i).size = 0 := by
  obtain ⟨hfit, hgrow, hok⟩ := (reallocFails_write hf).mp hfails
  rw [opStep_nomem hf hok hfit hgrow] at hs
  cases hs
  obtain ⟨d, hd, hcont⟩ := hsame i
  rw [Function.update_self] at hd
  obtain rfl : none = d := congrArg MemfsEntry.data hd
  rw [(h i (findEntry_some hf).1).size_eq, ← hcont]
  rfl

/-- A truncation whose `realloc` fails returns 0, or stores through `NULL`. -/
theorem ret_of_truncate_fails {size : Int} (hf : findEntry t p = some i)
    (hfails : ReallocFails t ⟨.truncate p size, env⟩)
    (hs : opStep t ⟨.truncate p size, env⟩ = some (r, t')) : r.ret = 0 := by
  obtain ⟨hfit, hpos, hok⟩ := (reallocFails_truncate hf).mp hfails
  rw [opStep_access (p := p) rfl hf] at hs
  obtain ⟨⟨r', e⟩, ha, heq⟩ := Option.map_eq_some_iff.mp hs
  cases heq
  simp only [access, truncateAt, realloc_fails hok] at ha
  rw [if_neg (Nat.not_lt.mpr hfit)] at ha
  obtain ⟨d, -, heq⟩ := Option.map_eq_some_iff.mp ha
  cases heq
  rfl

end Losses

/-- A call whose `realloc` fails fails cleanly only if it is a write to an empty file. -/
theorem harmless_of_failsCleanly (h : TableWf t) (hc : FailsCleanly t c) : Harmless t c := by
  intro hfails
  obtain ⟨r, t', hs, hclean⟩ := hc
  obtain ⟨hneg, hsame, -⟩ := hclean (.inr hfails)
  rcases hp : c.op.accesses with _ | p
  · exact absurd hfails (not_reallocFails_names hp)
  · rcases hf : findEntry t p with _ | i
    · exact absurd hfails (not_reallocFails_absent hf hp)
    · obtain ⟨op, env⟩ := c
      cases op with
      | write q buf off =>
        cases hp
        exact ⟨p, buf, off, i, rfl, hf, size_eq_zero_of_nomem h hf hfails hs hsame⟩
      | truncate q size =>
        cases hp
        rw [ret_of_truncate_fails hf hfails hs] at hneg
        cases hneg
      | read q size off =>
        obtain ⟨j, n, hre, -⟩ := hfails
        cases hre
      | _ => cases hp

/-- A call fails cleanly exactly if it is harmless. -/
theorem failsCleanly_iff_harmless (h : TableWf t) (hargs : KernelArgs c) :
    FailsCleanly t c ↔ Harmless t c := by
  refine ⟨harmless_of_failsCleanly h, fun hh => ?_⟩
  obtain ⟨r, t', hs, -, hclean⟩ := stepsWell_of_harmless h hargs hh
  refine ⟨r, t', hs, fun hfail => ?_⟩
  obtain ⟨hneg, halike⟩ := hclean hfail
  exact ⟨hneg, halike.sameEntries, halike.sameReplies⟩

/-- From a table whose blocks are as long as their sizes. -/
theorem legal_failsCleanly_iff (cs : List OpCall) (hargs : ∀ c ∈ cs, KernelArgs c) (h : TableWf t) :
    Machine.Legal opStep FailsCleanly t cs ↔ Machine.Legal opStep Harmless t cs := by
  have hiff : ∀ t c, TableWf t → KernelArgs c → (FailsCleanly t c ↔ Harmless t c) :=
    fun _ _ => failsCleanly_iff_harmless
  have hstep : ∀ t c r t', TableWf t → KernelArgs c → Harmless t c →
      opStep t c = some (r, t') → TableWf t' := by
    intro t c r t' h hc hh hs
    obtain ⟨r', t'', hs', hwf, -⟩ := stepsWell_of_harmless h hc hh
    rw [hs] at hs'
    cases hs'
    exact hwf
  exact Machine.legal_iff_of_inv hiff hstep cs hargs t h

/-- In every run of calls of the kernel: every call that does not succeed returns a negative error and
leaves all entries as they were, exactly if `realloc` fails in no call but writes to files that are still
empty. -/
theorem failures_clean_iff (cs : List OpCall) (hargs : ∀ c ∈ cs, KernelArgs c) :
    Machine.Legal opStep FailsCleanly Table.init cs ↔
      Machine.Legal opStep Harmless Table.init cs :=
  legal_failsCleanly_iff cs hargs tableWf_init

/-- A file that gets its first block after one failure. -/
theorem failures_clean_iff_create :
    let good : Env := ⟨0, 0, 0, true, fun _ => 0xAA⟩
    let bad : Env := ⟨0, 0, 0, false, fun _ => 0xAA⟩
    let a : CStr := ⟨[slash, 0x61], by decide⟩
    let run : List OpCall := [⟨.create a 0o644, bad⟩, ⟨.write a [1, 2] 0, bad⟩,
      ⟨.write a [1, 2] 0, good⟩, ⟨.read a 2 0, bad⟩]
    Machine.Legal opStep FailsCleanly Table.init run ↔
      Machine.Legal opStep Harmless Table.init run := by
  intro good bad a run
  exact failures_clean_iff run (by decide)

/-- A file of two bytes. A third one does not fit into its block, and `realloc` fails: the file has lost
its contents, so that the next read copies from `NULL`. Without that write the read returns both
bytes. -/
theorem failed_write_loses_contents :
    let good : Env := ⟨0, 0, 0, true, fun _ => 0xAA⟩
    let bad : Env := ⟨0, 0, 0, false, fun _ => 0xAA⟩
    let a : CStr := ⟨[slash, 0x61], by decide⟩
    let made : List OpCall := [⟨.create a 0o644, good⟩, ⟨.write a [1, 2] 0, good⟩]
    let append : OpCall := ⟨.write a [3] 2, bad⟩
    let read : OpCall := ⟨.read a 2 0, good⟩
    (Machine.exec opStep Table.init (made ++ [append])).map Prod.fst =
        some [⟨0, .nothing⟩, ⟨2, .nothing⟩, ⟨-ENOMEM, .nothing⟩] ∧
      (Machine.exec opStep Table.init (made ++ [append, read])).map Prod.fst = none ∧
      (Machine.exec opStep Table.init (made ++ [read])).map Prod.fst =
        some [⟨0, .nothing⟩, ⟨2, .nothing⟩, ⟨2, .bytes [1, 2]⟩] ∧
      ¬ Machine.Legal opStep FailsCleanly Table.init (made ++ [append]) := by
  intro good bad a made append read
  refine ⟨by decide +kernel, by decide +kernel, by decide +kernel, ?_⟩
  intro h
  have hlegal := (legal_failsCleanly_iff (made ++ [append]) (by decide) tableWf_init).mp h
  have hmade : (Machine.exec opStep Table.init made).map
      (fun x => (findEntry x.2 a).map fun i => (x.2 i).size) = some (some 2) := by decide +kernel
  obtain ⟨⟨rs, t⟩, hexec, hstate⟩ := Option.map_eq_some_iff.mp hmade
  obtain ⟨j, hfind, hsize⟩ := Option.map_eq_some_iff.mp hstate
  have hfails : ReallocFails t append := by
    rw [reallocFails_write hfind, hsize]
    decide
  obtain ⟨q, b, off, i, hop, hf, hempty⟩ := hlegal.last hexec hfails
  cases hop
  rw [hfind] at hf
  cases hf
  rw [hsize] at hempty
  cases hempty

end Memfs
