import LinuxHandson.Fat16.Tree

/-!
# Lookup and listing

`find_entry` and `fusefat_readdir` scan a directory with loops of their own. Both loops visit the
live entries of one extent, in order; the path walk of `find_entry` therefore finds in a directory
exactly what its listing shows.
-/

namespace Fat16

open CLib

variable (img : Image) (v : Volume)

/-! ## The two scans -/

/-- Reading a slot of which the image has no complete copy. -/
theorem freadEntry_run_end {s : Stdio} (h : img.size < s.pos + sizeofDirEntry) :
    ∃ pos, freadEntry.run (stdio img) s = some (none, { s with pos := pos }) := by
  have hshort : (img.read s.pos (sizeofDirEntry * 1)).length < sizeofDirEntry := by
    rw [Image.length_read]
    unfold sizeofDirEntry at *
    omega
  refine ⟨s.pos + (img.read s.pos (sizeofDirEntry * 1)).length, ?_⟩
  rw [freadEntry, Prog.run_bind_of_eq (run_fread img s sizeofDirEntry 1), Prog.run_pure,
    if_pos hshort]

theorem freadEntry_run {s : Stdio} (h : ¬ img.size < s.pos + sizeofDirEntry) :
    freadEntry.run (stdio img) s =
      some (some (entryAt img s.pos), { s with pos := s.pos + sizeofDirEntry }) := by
  have hread : img.read s.pos (sizeofDirEntry * 1) = img.slice s.pos sizeofDirEntry := by
    rw [Nat.mul_one]
    exact img.read_of_le (by omega)
  rw [freadEntry, Prog.run_bind_of_eq (run_fread img s sizeofDirEntry 1), Prog.run_pure, hread,
    Image.length_slice, if_neg (lt_irrefl _)]
  rfl

/-- The inner loop of `find_entry` finds the first live entry with the name. -/
theorem searchDir_run (c : CStr) (n : Nat) (s : Stdio) :
    ∃ pos, (searchDir c n).run (stdio img) s =
      some ((liveEntries img s.pos n).find? (DirEntry.named c), { s with pos := pos }) := by
  induction n generalizing s with
  | zero => exact ⟨s.pos, rfl⟩
  | succ n ih =>
    rw [searchDir, liveEntries]
    by_cases hend : img.size < s.pos + sizeofDirEntry
    · obtain ⟨pos, hread⟩ := freadEntry_run_end img hend
      rw [if_pos hend, Prog.run_bind_of_eq hread]
      exact ⟨pos, rfl⟩
    · obtain ⟨pos, ih⟩ := ih { s with pos := s.pos + sizeofDirEntry }
      rw [if_neg hend, Prog.run_bind_of_eq (freadEntry_run img hend)]
      simp only
      split
      · exact ⟨_, rfl⟩
      · split
        · exact ⟨pos, ih⟩
        · rw [List.find?_cons]
          by_cases hname : strcasecmp (formatName (entryAt img s.pos)) c = 0
          · have hn : (entryAt img s.pos).named c = true := decide_eq_true hname
            rw [if_pos hname, hn]
            exact ⟨_, rfl⟩
          · have hn : (entryAt img s.pos).named c = false := decide_eq_false hname
            rw [if_neg hname, hn]
            exact ⟨pos, ih⟩

/-- The loop of `fusefat_readdir` lists the names of the live entries. -/
theorem listDir_run (n : Nat) (s : Stdio) :
    ∃ pos, (listDir n).run (stdio img) s =
      some ((liveEntries img s.pos n).map formatName, { s with pos := pos }) := by
  induction n generalizing s with
  | zero => exact ⟨s.pos, rfl⟩
  | succ n ih =>
    rw [listDir, liveEntries]
    by_cases hend : img.size < s.pos + sizeofDirEntry
    · obtain ⟨pos, hread⟩ := freadEntry_run_end img hend
      rw [if_pos hend, Prog.run_bind_of_eq hread]
      exact ⟨pos, rfl⟩
    · obtain ⟨pos, ih⟩ := ih { s with pos := s.pos + sizeofDirEntry }
      rw [if_neg hend, Prog.run_bind_of_eq (freadEntry_run img hend)]
      simp only
      split
      · exact ⟨_, rfl⟩
      · split
        · exact ⟨pos, ih⟩
        · refine ⟨pos, ?_⟩
          rw [Prog.run_bind_of_eq ih]
          rfl

/-! ## The path walk -/

theorem walk_round (fuel : Nat) (x : Extent) (c : CStr) (s : Stdio) :
    ∃ pos, (walk v (fuel + 1) x.start x.slots c).run (stdio img) s =
      Prog.run (stdio img)
        (match (x.entries img).find? (DirEntry.named c) with
        | none => pure (.error (-ENOENT))
        | some e =>
          match (tokens s.save slash).head? with
          | none => pure (.ok e)
          | some next =>
            if ¬ e.isDirectory then pure (.error (-ENOTDIR))
            else
              walk v fuel (v.clusterExtent e.firstCluster).start
                (v.clusterExtent e.firstCluster).slots next)
        { pos := pos, save := (strtok s.save slash).2 } := by
  obtain ⟨pos, hsearch⟩ := searchDir_run img c x.slots
    { pos := x.start.toNat, save := (strtok s.save slash).2 }
  refine ⟨pos, ?_⟩
  rw [walk, Prog.run_bind_of_eq (run_strtok_none img s slash),
    Prog.run_bind_of_eq (run_fseek img _ _), Prog.run_bind_of_eq hsearch,
    (strtok_tokens s.save slash).1]
  rfl

/-- The outer loop of `find_entry` at a component, with `cs` the components that follow. -/
theorem walk_run (cs : List CStr) :
    ∀ (fuel : Nat) (x : Extent) (c : CStr) (s : Stdio), cs.length < fuel →
      tokens s.save slash = cs →
      ∃ s', (walk v fuel x.start x.slots c).run (stdio img) s =
        some (resolve img v x (c :: cs), s') := by
  induction cs with
  | nil =>
    intro fuel x c s hf hs
    obtain ⟨fuel, rfl⟩ := Nat.exists_eq_succ_of_ne_zero (by omega : fuel ≠ 0)
    obtain ⟨pos, hround⟩ := walk_round img v fuel x c s
    rw [hround, hs, resolve]
    cases (x.entries img).find? (DirEntry.named c) with
    | none => exact ⟨_, rfl⟩
    | some e => exact ⟨_, rfl⟩
  | cons c' cs ih =>
    intro fuel x c s hf hs
    obtain ⟨fuel, rfl⟩ := Nat.exists_eq_succ_of_ne_zero (by omega : fuel ≠ 0)
    obtain ⟨pos, hround⟩ := walk_round img v fuel x c s
    rw [hround, hs, resolve]
    cases (x.entries img).find? (DirEntry.named c) with
    | none => exact ⟨_, rfl⟩
    | some e =>
      simp only [List.head?_cons]
      by_cases hd : e.isDirectory
      · have htail : tokens (strtok s.save slash).2 slash = cs := by
          rw [(strtok_tokens s.save slash).2, hs, List.tail_cons]
        rw [if_neg (not_not.mpr hd), if_neg (not_not.mpr hd)]
        rw [List.length_cons] at hf
        exact ih fuel _ c' { pos := pos, save := (strtok s.save slash).2 } (by omega) htail
      · rw [if_pos hd, if_pos hd]
        exact ⟨_, rfl⟩

/-- `find_entry` on a path, with one round of its loop for each component. -/
theorem findEntry_run {fuel : Nat} {path : CStr} (s : Stdio) (hp : path.bytes ≠ [])
    (hf : (components path).length ≤ fuel) :
    ∃ s', (findEntry v fuel path).run (stdio img) s = some (lookup img v path, s') := by
  rw [findEntry, lookup]
  by_cases hroot : path = rootPath
  · rw [if_pos (strcmp_eq_zero.mpr hroot), if_pos hroot]
    exact ⟨s, rfl⟩
  · rw [if_neg (fun h => hroot (strcmp_eq_zero.mp h)), if_neg hroot, if_neg hp]
    simp only
    rw [Prog.run_bind_of_eq (run_strtok_some img s _ slash), (strtok_tokens _ slash).1]
    have htail := (strtok_tokens (strncpy (path.offset 1) pathcopyLen) slash).2
    change tokens _ slash = (components path).tail at htail
    change ∃ s', Prog.run _ (match (components path).head? with | none => _ | some c => _) _ = _
    rcases hc : components path with _ | ⟨c, cs⟩
    · exact ⟨_, rfl⟩
    · rw [hc] at htail hf
      exact walk_run img v cs fuel v.rootExtent c _ hf htail

theorem length_components_le (path : CStr) : (components path).length ≤ pathcopyLen :=
  (length_tokens_le _ _).trans (strlen_strncpy_le _ _)

theorem fusefatReaddir_run {fuel : Nat} {path : CStr} {e : DirEntry} (s : Stdio)
    (hp : path.bytes ≠ []) (hf : pathcopyLen ≤ fuel) (he : lookup img v path = .ok e) :
    ∃ s', (fusefatReaddir v fuel path).run (stdio img) s =
      some ((0, dot :: dotdot :: ((listedExtent v path e).entries img).map formatName), s') := by
  obtain ⟨s1, hfind⟩ := findEntry_run img v s hp ((length_components_le path).trans hf)
  obtain ⟨pos, hlist⟩ := listDir_run img (listedExtent v path e).slots
    { s1 with pos := (listedExtent v path e).start.toNat }
  refine ⟨{ s1 with pos := pos }, ?_⟩
  have hext : (if strcmp path rootPath = 0 then (v.rootDirStart, v.rootEntryCount.toNat)
      else (clusterToOffset v e.firstCluster, v.clusterSize.toNat / 32)) =
      ((listedExtent v path e).start, (listedExtent v path e).slots) := by
    rw [listedExtent]
    simp only [strcmp_eq_zero]
    split <;> rfl
  rw [fusefatReaddir, Prog.run_bind_of_eq hfind, he]
  simp only
  rw [hext, Prog.run_bind_of_eq (run_fseek img _ _), Prog.run_bind_of_eq hlist]
  rfl

/-! ## A name in a directory -/

/-- Below a directory that a walk finds, the walk goes on with the last component. -/
theorem resolve_append {d : DirEntry} (hd : d.isDirectory) (c : CStr) (cs : List CStr) :
    ∀ x : Extent, resolve img v x cs = .ok d →
      resolve img v x (cs ++ [c]) = resolve img v (v.clusterExtent d.firstCluster) [c] := by
  induction cs with
  | nil =>
    intro x h
    cases h
  | cons c₁ cs ih =>
    intro x h
    rcases cs with _ | ⟨c₂, cs⟩
    · rw [resolve] at h
      rw [List.cons_append, List.nil_append, resolve_cons_cons]
      rcases hx : (x.entries img).find? (DirEntry.named c₁) with _ | e
      · rw [hx] at h
        cases h
      · rw [hx] at h
        cases h
        simp only [hd, not_true, if_false]
    · rw [resolve_cons_cons] at h
      rw [List.cons_append, List.cons_append, resolve_cons_cons]
      rcases hx : (x.entries img).find? (DirEntry.named c₁) with _ | e
      · rw [hx] at h
        cases h
      · rw [hx] at h
        by_cases he : e.isDirectory
        · simp only [he, not_true, if_false] at h ⊢
          exact ih _ h
        · simp only [he, not_false_iff, if_true] at h
          cases h

theorem components_eq (path : CStr) :
    components path =
      (tokenBytes slash ((path.bytes.drop 1).take pathcopyLen)).map CStr.ofBuf := rfl

theorem child_bytes {p c : CStr} {r : List UInt8} (hr : p.bytes = slash :: r)
    (hroot : p ≠ rootPath) : (child p c).bytes = slash :: (r ++ slash :: c.bytes) := by
  rw [child, if_neg hroot]
  simp [CStr.append, rootPath, hr]

/-- The components of `p/c` are those of `p` and `c`. -/
theorem components_child {p c : CStr} (hp : p.bytes.head? = some slash) (hc : IsComponent c)
    (hlen : strlen (child p c) ≤ pathcopyLen + 1) (hroot : p ≠ rootPath) :
    components (child p c) = components p ++ [c] := by
  obtain ⟨r, hr⟩ := List.head?_eq_some_iff.mp hp
  rw [strlen, child_bytes hr hroot, List.length_cons, List.length_append] at hlen
  rw [components_eq, components_eq, child_bytes hr hroot, hr, List.drop_succ_cons,
    List.drop_succ_cons, List.drop_zero, List.drop_zero,
    List.take_of_length_le (by rw [List.length_append]; omega),
    List.take_of_length_le (by omega), tokenBytes_append_delim, List.map_append,
    tokenBytes_of_no_delim hc.2, if_neg hc.1]
  exact congrArg (_ ++ [·]) c.ofBuf_bytes

/-- The path of a name in the root directory has that one component. -/
theorem components_child_root {c : CStr} (hc : IsComponent c)
    (hlen : strlen (child rootPath c) ≤ pathcopyLen + 1) :
    components (child rootPath c) = [c] := by
  have hoff : (child rootPath c).offset 1 = c := by
    rw [child, if_pos rfl]
    exact CStr.ext_bytes rfl
  have hle : strlen c ≤ pathcopyLen := by
    rw [child, if_pos rfl] at hlen
    simp only [strlen, CStr.append, rootPath, List.length_append, List.length_singleton] at hlen
    rw [strlen]
    omega
  rw [components, hoff, strncpy_of_le hle]
  exact tokens_of_no_delim hc.1 hc.2

theorem child_ne_root {p c : CStr} (hc : IsComponent c) : child p c ≠ rootPath := by
  intro h
  have hlen : (child p c).bytes.length = 1 := by
    rw [h]
    rfl
  have hpos := List.length_pos_of_ne_nil hc.1
  by_cases hp : p = rootPath
  · rw [child, if_pos hp] at hlen
    simp only [CStr.append, rootPath, List.length_append, List.length_singleton] at hlen
    omega
  · rw [child, if_neg hp] at hlen
    simp only [CStr.append, rootPath, List.length_append, List.length_singleton] at hlen
    omega

/-- What `find_entry` finds at `p/c`, from what it finds at `p`. -/
theorem lookup_child {p c : CStr} {d : DirEntry} (hp : p.bytes.head? = some slash)
    (hc : IsComponent c) (hlen : strlen (child p c) ≤ pathcopyLen + 1)
    (hd : lookup img v p = .ok d) (hdir : d.isDirectory) :
    lookup img v (child p c) = resolve img v (listedExtent v p d) [c] := by
  rw [lookup, if_neg (child_ne_root hc)]
  by_cases hroot : p = rootPath
  · subst hroot
    rw [components_child_root hc hlen, listedExtent, if_pos rfl]
  · rw [lookup, if_neg hroot] at hd
    rw [components_child hp hc hlen hroot, listedExtent, if_neg hroot]
    exact resolve_append img v hdir c _ _ hd

theorem ne_nil_of_head? {p : CStr} (hp : p.bytes.head? = some slash) : p.bytes ≠ [] := by
  intro h
  rw [h] at hp
  cases hp

theorem head?_child {p c : CStr} (hp : p.bytes.head? = some slash) :
    (child p c).bytes.head? = some slash := by
  obtain ⟨r, hr⟩ := List.head?_eq_some_iff.mp hp
  rw [child]
  split
  · rfl
  · simp [CStr.append, hr]

/-- Whether a component resolves in an extent is whether its listing has the name. -/
theorem resolve_single_iff (x : Extent) (c : CStr) :
    (∃ e, resolve img v x [c] = .ok e) ↔
      ∃ name ∈ (x.entries img).map formatName, strcasecmp name c = 0 := by
  rw [resolve]
  rcases hf : (x.entries img).find? (DirEntry.named c) with _ | e
  · simp only [reduceCtorEq, exists_false, false_iff]
    rintro ⟨name, hname, hcmp⟩
    obtain ⟨e, he, rfl⟩ := List.mem_map.mp hname
    exact List.find?_eq_none.mp hf e he (decide_eq_true hcmp)
  · refine iff_of_true ⟨e, rfl⟩ ⟨formatName e, ?_, ?_⟩
    · exact List.mem_map_of_mem (List.mem_of_find?_eq_some hf)
    · exact of_decide_eq_true (List.find?_some (p := DirEntry.named c) hf)

theorem find?_of_resolve_single {x : Extent} {c : CStr} {e : DirEntry}
    (h : resolve img v x [c] = .ok e) : (x.entries img).find? (DirEntry.named c) = some e := by
  rw [resolve] at h
  rcases hf : (x.entries img).find? (DirEntry.named c) with _ | e'
  · rw [hf] at h
    cases h
  · rw [hf] at h
    cases h
    rfl

/-- `find_entry` succeeds on `p/c`, for a directory `p` that it finds, exactly when the listing of
`p` has the name `c` in upper or lower case, and then finds the first entry with such a name. -/
theorem findEntry_iff_readdir {p c : CStr} {d : DirEntry} {fuel : Nat} {s₀ s₀' : Stdio}
    (hp : p.bytes.head? = some slash) (hc : IsComponent c)
    (hlen : strlen (child p c) ≤ pathcopyLen + 1) (hf : pathcopyLen ≤ fuel)
    (hd : (findEntry v fuel p).run (stdio img) s₀ = some (.ok d, s₀')) (hdir : d.isDirectory)
    (s : Stdio) :
    ∃ (entries : List DirEntry) (r : Except Int DirEntry) (s₁ s₂ : Stdio),
      entries = (listedExtent v p d).entries img ∧
      (fusefatReaddir v fuel p).run (stdio img) s =
        some ((0, dot :: dotdot :: entries.map formatName), s₁) ∧
      (findEntry v fuel (child p c)).run (stdio img) s = some (r, s₂) ∧
      ((∃ e, r = .ok e) ↔ ∃ name ∈ entries.map formatName, strcasecmp name c = 0) ∧
      ∀ e, r = .ok e → entries.find? (DirEntry.named c) = some e := by
  have hpne := ne_nil_of_head? hp
  have hlookup : lookup img v p = .ok d := by
    obtain ⟨s', hrun⟩ := findEntry_run img v s₀ hpne ((length_components_le p).trans hf)
    rw [hd] at hrun
    exact (Prod.mk.inj (Option.some.inj hrun)).1.symm
  obtain ⟨s₁, hread⟩ := fusefatReaddir_run img v s hpne hf hlookup
  obtain ⟨s₂, hfind⟩ := findEntry_run img v s (ne_nil_of_head? (head?_child (c := c) hp))
    ((length_components_le _).trans hf)
  rw [lookup_child img v hp hc hlen hlookup hdir] at hfind
  exact ⟨_, _, s₁, s₂, rfl, hread, hfind, resolve_single_iff img v _ c,
    fun e he => find?_of_resolve_single img v he⟩

/-- The file `/D/a` of `twoClusters`, whose entry has the name `A`. -/
theorem findEntry_iff_readdir_twoClusters :
    let p : CStr := ⟨[slash, 0x44], by decide⟩
    let c : CStr := ⟨[0x61], by decide⟩
    let s : Stdio := ⟨0, rootPath⟩
    ∃ (d : DirEntry) (entries : List DirEntry) (r : Except Int DirEntry) (s₁ s₂ : Stdio),
      entries = (listedExtent twoClustersVolume p d).entries twoClusters ∧
      (fusefatReaddir twoClustersVolume 511 p).run (stdio twoClusters) s =
        some ((0, dot :: dotdot :: entries.map formatName), s₁) ∧
      (findEntry twoClustersVolume 511 (child p c)).run (stdio twoClusters) s = some (r, s₂) ∧
      ((∃ e, r = .ok e) ↔ ∃ name ∈ entries.map formatName, strcasecmp name c = 0) ∧
      ∀ e, r = .ok e → entries.find? (DirEntry.named c) = some e := by
  intro p c s
  have hd : (findEntry twoClustersVolume 511 p).run (stdio twoClusters) s =
      some (.ok (entryAt twoClusters 9216), ⟨9248, ⟨[], by decide⟩⟩) := by
    decide +kernel
  exact ⟨entryAt twoClusters 9216,
    findEntry_iff_readdir twoClusters twoClustersVolume rfl (by decide) (by decide) le_rfl hd
      (by decide +kernel) s⟩

end Fat16
