import LinuxHandson.Memfs.RefFS
import LinuxHandson.Memfs.Proofs.TableProofs

/-!
# Proofs: reading, writing and truncating one file

On an entry whose block is as long as its `size`, the three handlers that access the block stay in
bounds, and the block is afterwards what `pwrite` and `resize` make of the old contents, whatever
stale bytes the heap hands out.
-/

namespace Memfs

open CLib

/-- The block of an entry is exactly as long as its `size`. -/
structure EntryWf (e : MemfsEntry) : Prop where
  size_eq : e.size = (contents e.data).length
  size_le : e.size ≤ maxDataSize

theorem entryWf_newEntry (env : Env) (p : CStr) (d : Bool) (mode : Nat) :
    EntryWf (newEntry env p d mode) :=
  ⟨rfl, Nat.zero_le _⟩

theorem maxDataSize_lt : maxDataSize < 2 ^ 31 := by decide

theorem data_of_size_pos {e : MemfsEntry} (h : EntryWf e) (hpos : 0 < e.size) :
    e.data = some (contents e.data) := by
  cases hd : e.data with
  | none =>
    have := h.size_eq
    rw [hd] at this
    exact absurd this (by simp [contents]; omega)
  | some b => rfl

section Access

variable {env : Env} {t : Table} {p : CStr} {i : Fin maxFiles}

/-- Growing a block and filling the new part from the old end up to `o` with zeros. -/
theorem grow_zero {h : Heap} (hok : h.ok = true) (d : Ptr) {n o : Nat} (hn : 0 < n) (hon : o ≤ n)
    (hlen : (contents d).length < n) :
    ∃ b, (if o > (contents d).length then
        memset (realloc h d n) (contents d).length 0 (o - (contents d).length)
      else some (realloc h d n)) = some (some b) ∧ b.length = n ∧
      ∀ k, k < max (contents d).length o → b[k]? = some ((contents d).getD k 0) := by
  obtain ⟨b, hb, hbn, hbk⟩ := realloc_ok hok d hn
  have hold : ∀ k, k < (contents d).length → b[k]? = some ((contents d).getD k 0) := by
    intro k hk
    rw [hbk k (by omega) hk, List.getD_eq_getElem?_getD, List.getElem?_eq_getElem hk]
    rfl
  rw [hb]
  by_cases ho : o > (contents d).length
  · rw [if_pos ho, memset_ok (by omega)]
    have hle : (contents d).length + (List.replicate (o - (contents d).length) (0 : UInt8)).length
        ≤ b.length := by
      rw [List.length_replicate]
      omega
    refine ⟨_, rfl, by rw [length_splice hle, hbn], fun k hk => ?_⟩
    rw [getElem?_splice hle, List.length_replicate]
    by_cases hkl : k < (contents d).length
    · rw [if_neg (by omega), hold k hkl]
    · rw [if_pos (by omega), List.getElem?_replicate, if_pos (by omega),
        List.getD_eq_getElem?_getD, List.getElem?_eq_none (by omega)]
      rfl
  · rw [if_neg ho]
    exact ⟨b, rfl, hbn, fun k hk => hold k (by omega)⟩

/-- The block after the `realloc` of an entry that grows to `n` bytes and the zero-fill from its old
size up to `o`. -/
theorem fill_gap {h : Heap} (hok : h.ok = true) {e : MemfsEntry} (hwf : EntryWf e) {n o : Nat}
    (hn : n ≤ maxDataSize) (hon : o ≤ n) (hlt : e.size < n) :
    ∃ b, (if (o : Int) > e.size then
        memset (realloc h e.data n) e.size 0 (sizeT ((o : Int) - e.size))
      else some (realloc h e.data n)) = some (some b) ∧ b.length = n ∧
      ∀ k, k < max e.size o → b[k]? = some ((contents e.data).getD k 0) := by
  have hmax := maxDataSize_lt
  have hsize := hwf.size_eq
  obtain ⟨b, hb, hbn, hbk⟩ := grow_zero hok e.data (n := n) (o := o) (by omega) hon (by omega)
  rw [← hsize] at hb hbk
  refine ⟨b, ?_, hbn, hbk⟩
  rw [← hb]
  by_cases ho : o > e.size
  · have hgap : sizeT ((o : Int) - e.size) = o - e.size := by
      rw [← Int.natCast_sub (by omega), sizeT_natCast (by omega)]
    rw [if_pos (by omega), if_pos ho, hgap]
  · rw [if_neg (by omega), if_neg ho]

/-- The bytes written into a block that has grown. -/
theorem splice_grown {b b' buf : List UInt8} {o : Nat} (hlen : b'.length = o + buf.length)
    (hk : ∀ k, k < max b.length o → b'[k]? = some (b.getD k 0)) :
    splice b' o buf = pwrite b o buf := by
  apply List.ext_getElem?
  intro k
  rw [getElem?_splice (Nat.le_of_eq hlen.symm), getElem?_pwrite]
  by_cases hin : o ≤ k ∧ k < o + buf.length
  · rw [if_pos hin, if_pos hin]
  · rw [if_neg hin, if_neg hin]
    by_cases hold : k < max b.length o
    · rw [if_pos hold, hk k hold]
    · rw [if_neg hold, List.getElem?_eq_none (by omega)]

theorem splice_inside {b buf : List UInt8} {o : Nat} (h : o + buf.length ≤ b.length) :
    splice b o buf = pwrite b o buf := by
  unfold splice pwrite
  rw [Nat.sub_eq_zero_of_le (by omega), List.replicate_zero, List.append_nil]

theorem memfsWrite_none (hf : findEntry t p = none) (buf : List UInt8) (off : Int) :
    memfsWrite env t p buf off = some (-ENOENT, t) := by
  rw [memfsWrite, hf]

theorem memfsWrite_nospace (hf : findEntry t p = some i) {buf : List UInt8} {o : Nat}
    (hb : buf.length < 2 ^ 63) (ho : o < 2 ^ 63) (h : o + buf.length > maxDataSize) :
    memfsWrite env t p buf o = some (-ENOSPC, t) := by
  have hsz : sizeT ((o : Int) + buf.length) = o + buf.length := by
    rw [← Int.natCast_add]
    exact sizeT_natCast (by omega)
  rw [memfsWrite, hf]
  exact if_pos (by rw [hsz]; exact h)

section Write

variable {buf : List UInt8} {o : Nat}

/-- A write past the end: `realloc`, then the gap, then the bytes. -/
theorem memfsWrite_grow (hf : findEntry t p = some i) (hwf : EntryWf (t i))
    (hok : env.heap.ok = true) (h : o + buf.length ≤ maxDataSize)
    (hgrow : o + buf.length > (t i).size) :
    ∃ e, memfsWrite env t p buf o = some ((buf.length : Int), Function.update t i e) ∧
      SameShape (t i) e ∧ EntryWf e ∧
      contents e.data = pwrite (contents (t i).data) o buf := by
  have hmax := maxDataSize_lt
  have hlen := hwf.size_eq
  have hsz : sizeT ((o : Int) + buf.length) = o + buf.length := by
    rw [← Int.natCast_add]
    exact sizeT_natCast (by omega)
  have hret : cInt (buf.length : Int) = buf.length := cInt_of_lt (by omega) (by omega)
  have hoff : offT ((t i).size : Int) = (t i).size := offT_of_lt (by omega) (by omega)
  obtain ⟨b, hb, hbn, hbk⟩ := fill_gap hok hwf h (Nat.le_add_right o buf.length) hgrow
  have hre : realloc env.heap (t i).data (o + buf.length) ≠ none := by
    obtain ⟨b', hb', -⟩ := realloc_ok hok (t i).data (n := o + buf.length) (by omega)
    rw [hb']
    exact Option.some_ne_none _
  have hle : o + buf.length ≤ b.length := by omega
  have hcont : splice b o buf = pwrite (contents (t i).data) o buf :=
    splice_grown hbn (by rw [← hlen]; exact hbk)
  rw [memfsWrite, hf]
  simp only [hsz, hret, hoff]
  rw [if_neg (by omega), if_pos hgrow, if_neg hre, hb]
  simp only [Option.bind_eq_bind, Option.bind_some, memcpyTo_ok hle]
  refine ⟨_, rfl, ⟨rfl, rfl, rfl⟩, ⟨?_, h⟩, hcont⟩
  show o + buf.length = (splice b o buf).length
  rw [length_splice hle, hbn]

theorem memfsWrite_inside (hf : findEntry t p = some i) (hwf : EntryWf (t i)) (h1 : 1 ≤ buf.length)
    (h : o + buf.length ≤ (t i).size) :
    ∃ e, memfsWrite env t p buf o = some ((buf.length : Int), Function.update t i e) ∧
      SameShape (t i) e ∧ EntryWf e ∧
      contents e.data = pwrite (contents (t i).data) o buf := by
  have hmax := maxDataSize_lt
  have hsize := hwf.size_le
  have hsz : sizeT ((o : Int) + buf.length) = o + buf.length := by
    rw [← Int.natCast_add]
    exact sizeT_natCast (by omega)
  have hret : cInt (buf.length : Int) = buf.length := cInt_of_lt (by omega) (by omega)
  have hdata := data_of_size_pos hwf (by omega)
  have hle : o + buf.length ≤ (contents (t i).data).length := by
    rw [← hwf.size_eq]
    exact h
  rw [memfsWrite, hf]
  simp only [hsz, hret]
  rw [if_neg (by omega), if_neg (by omega), hdata]
  simp only [Option.bind_eq_bind, Option.bind_some, memcpyTo_ok hle]
  refine ⟨_, rfl, ⟨rfl, rfl, rfl⟩, ⟨?_, hsize⟩, splice_inside hle⟩
  show (t i).size = (splice (contents (t i).data) o buf).length
  rw [length_splice hle, hwf.size_eq]

/-- A write that fits stores the bytes, fills a gap with zeros and keeps the rest. -/
theorem memfsWrite_ok (hf : findEntry t p = some i) (hwf : EntryWf (t i))
    (hok : env.heap.ok = true) (h1 : 1 ≤ buf.length) (h : o + buf.length ≤ maxDataSize) :
    ∃ e, memfsWrite env t p buf o = some ((buf.length : Int), Function.update t i e) ∧
      SameShape (t i) e ∧ EntryWf e ∧
      contents e.data = pwrite (contents (t i).data) o buf := by
  by_cases hgrow : o + buf.length > (t i).size
  · exact memfsWrite_grow hf hwf hok h hgrow
  · exact memfsWrite_inside hf hwf h1 (Nat.le_of_not_gt hgrow)

end Write

theorem memfsTruncate_none (hf : findEntry t p = none) (size : Int) :
    memfsTruncate env t p size = some (-ENOENT, t) := by
  rw [memfsTruncate, hf]

theorem memfsTruncate_nospace (hf : findEntry t p = some i) {n : Nat} (hn : n < 2 ^ 63)
    (h : n > maxDataSize) : memfsTruncate env t p n = some (-ENOSPC, t) := by
  rw [memfsTruncate, hf]
  exact if_pos (by rw [sizeT_natCast (by omega)]; exact h)

/-- A `realloc` to at most the old length cuts the contents. `realloc(p, 0)` frees the block and
`realloc(NULL, 0)` gives an empty one. -/
theorem contents_realloc_of_le {h : Heap} (hok : h.ok = true) (d : Ptr) {n : Nat}
    (hn : n ≤ (contents d).length) : contents (realloc h d n) = resize (contents d) n := by
  unfold resize
  rw [Nat.sub_eq_zero_of_le hn, List.replicate_zero, List.append_nil]
  by_cases hzero : n = 0
  · subst hzero
    cases d with
    | none => simp [realloc, hok, contents]
    | some b => simp [realloc, contents]
  · obtain ⟨b, hb, hbn, hbk⟩ := realloc_ok hok d (n := n) (by omega)
    rw [hb]
    apply List.ext_getElem?
    intro k
    show b[k]? = _
    by_cases hk : k < n
    · rw [hbk k hk (by omega), List.getElem?_take_of_lt hk]
    · rw [List.getElem?_eq_none (by omega),
        List.getElem?_eq_none (by rw [List.length_take]; omega)]

/-- A truncation that fits cuts the contents or extends them with zeros. -/
theorem memfsTruncate_ok (hf : findEntry t p = some i) (hwf : EntryWf (t i))
    (hok : env.heap.ok = true) {n : Nat} (h : n ≤ maxDataSize) :
    ∃ e, memfsTruncate env t p n = some (0, Function.update t i e) ∧ SameShape (t i) e ∧
      EntryWf e ∧ contents e.data = resize (contents (t i).data) n := by
  have hmax := maxDataSize_lt
  have hsize := hwf.size_le
  have hsz : sizeT (n : Int) = n := sizeT_natCast (by omega)
  have hoff : offT ((t i).size : Int) = (t i).size := offT_of_lt (by omega) (by omega)
  rw [memfsTruncate, hf]
  simp only [hsz, hoff]
  rw [if_neg (by omega)]
  by_cases hgrow : n > (t i).size
  · obtain ⟨b, hb, hbn, hbk⟩ := fill_gap hok hwf h (Nat.le_refl n) hgrow
    rw [hb]
    simp only [Option.bind_eq_bind, Option.bind_some]
    have hcont : b = resize (contents (t i).data) n := by
      apply List.ext_getElem?
      intro k
      rw [getElem?_resize]
      by_cases hk : k < n
      · rw [if_pos hk, hbk k (by omega)]
      · rw [if_neg hk, List.getElem?_eq_none (by omega)]
    exact ⟨_, rfl, ⟨rfl, rfl, rfl⟩, ⟨hbn.symm, h⟩, hcont⟩
  · have hcont := contents_realloc_of_le hok (t i).data (n := n) (by rw [← hwf.size_eq]; omega)
    rw [if_neg (by omega)]
    simp only [Option.bind_eq_bind, Option.bind_some]
    refine ⟨_, rfl, ⟨rfl, rfl, rfl⟩, ⟨?_, h⟩, hcont⟩
    show n = (contents (realloc env.heap (t i).data n)).length
    rw [hcont, length_resize]

theorem memfsRead_none (hf : findEntry t p = none) (size : Nat) (off : Int) :
    memfsRead env t p size off = some (-ENOENT, [], t) := by
  rw [memfsRead, hf]

/-- A read returns the bytes from the offset on, as many as the buffer takes and the file has. -/
theorem memfsRead_ok (hf : findEntry t p = some i) (hwf : EntryWf (t i)) {size o : Nat}
    (hs : size < 2 ^ 63) (ho : o < 2 ^ 63) :
    ∃ e, memfsRead env t p size o =
        some (((pread (contents (t i).data) o size).length : Int),
          pread (contents (t i).data) o size, Function.update t i e) ∧
      SameShape (t i) e ∧ EntryWf e ∧ contents e.data = contents (t i).data := by
  have hmax := maxDataSize_lt
  have hle := hwf.size_le
  have hoff : offT ((t i).size : Int) = (t i).size := offT_of_lt (by omega) (by omega)
  have hlen := hwf.size_eq
  generalize hc : contents (t i).data = b at hlen
  have hpr : (pread b o size).length = min size (b.length - o) := by
    simp [pread, List.length_take, List.length_drop]
  rw [memfsRead, hf]
  simp only [hoff]
  by_cases hend : o ≥ (t i).size
  · have hnil : pread b o size = [] := List.eq_nil_of_length_eq_zero (by omega)
    rw [if_pos (by omega), hnil]
    refine ⟨t i, ?_, SameShape.refl _, hwf, hc⟩
    rw [Function.update_eq_self]
    rfl
  · have hdat : (t i).data = some b := by
      rw [← hc]
      exact data_of_size_pos hwf (by omega)
    have hclamp : (if sizeT ((o : Int) + size) > (t i).size then sizeT ((t i).size - (o : Int))
        else size) = min size (b.length - o) := by
      rw [← Int.natCast_add, sizeT_natCast (by omega)]
      split
      · rw [← Int.natCast_sub (by omega), sizeT_natCast (by omega)]
        omega
      · omega
    rw [if_neg (by omega), hclamp, hdat, memcpyFrom_ok (by omega)]
    have htake : (b.drop o).take (min size (b.length - o)) = pread b o size := by
      rw [← List.length_drop, ← List.take_eq_take_min]
      rfl
    have hcast : cInt ((min size (b.length - o) : Nat) : Int) = (pread b o size).length := by
      rw [hpr]
      exact cInt_of_lt (by omega) (by omega)
    simp only [htake, hcast]
    exact ⟨_, rfl, ⟨rfl, rfl, rfl⟩, ⟨hlen, hwf.size_le⟩, rfl⟩

end Access

end Memfs
