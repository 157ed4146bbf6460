import LinuxHandson.Fat16.Proofs.LookupProofs

/-!
# Entries found by a cut path

`find_entry` walks along a copy of the path that holds 511 bytes after the slash. What it finds is the
entry of the copy, so a path that is longer can find the entry of an ancestor. For every path whose
copy lacks a component, and whose components in the copy can all be names of entries, there is an image
on which it does: one directory in the other, down to a file at the last component of the copy.
-/

namespace Fat16

open CLib

variable {img : Image} {v : Volume}

/-- The entry that a path names: the root, or what all of its components lead to. -/
def NamedBy (img : Image) (v : Volume) (path : CStr) (e : DirEntry) : Prop :=
  (path = rootPath ∧ e = DirEntry.root) ∨
    (path ≠ rootPath ∧ Leads img v v.rootExtent (allComponents path) e)

/-- Whenever `find_entry` returns 0, the whole path names the entry that it stores. -/
def FindEntrySound (img : Image) (v : Volume) (path : CStr) : Prop :=
  ∀ fuel s e s', pathcopyLen ≤ fuel →
    (findEntry v fuel path).run (stdio img) s = some (.ok e, s') → NamedBy img v path e

/-- The walk of the driver and the entries that a path leads to. -/
theorem resolve_ok_iff (cs : List CStr) :
    ∀ (x : Extent) (e : DirEntry), resolve img v x cs = .ok e ↔ Leads img v x cs e := by
  induction cs with
  | nil =>
    intro x e
    constructor
    · intro h
      cases h
    · intro h
      cases h
  | cons c cs ih =>
    intro x e
    cases cs with
    | nil =>
      constructor
      · intro h
        exact .last (find?_of_resolve_single img v h)
      · intro h
        cases h with
        | last h => rw [resolve, h]
        | into h hd hcs => cases hcs
    | cons c' cs =>
      rw [resolve_cons_cons]
      constructor
      · intro h
        rcases hf : (x.entries img).find? (DirEntry.named c) with _ | d
        · rw [hf] at h
          cases h
        · rw [hf] at h
          by_cases hd : d.isDirectory
          · simp only [hd, not_true, if_false] at h
            exact .into hf hd ((ih _ e).mp h)
          · simp only [hd, not_false_iff, if_true] at h
            cases h
      · intro h
        cases h with
        | into h hd hcs =>
          rw [h]
          simp only [hd, not_true, if_false]
          exact (ih _ e).mpr hcs

/-- Components lead to one entry. -/
theorem Leads.unique {x : Extent} {cs : List CStr} {e e' : DirEntry} (h : Leads img v x cs e)
    (h' : Leads img v x cs e') : e = e' := by
  have heq := (resolve_ok_iff cs x e).mpr h
  rw [(resolve_ok_iff cs x e').mpr h'] at heq
  cases heq
  rfl

/-- What `find_entry` stores for a path other than `/`: the entry that the components of the copy lead
to. -/
theorem findEntry_ok_iff {path : CStr} (hp : path.bytes ≠ []) (hroot : path ≠ rootPath) {fuel : Nat}
    (hf : pathcopyLen ≤ fuel) (s : Stdio) (e : DirEntry) :
    (∃ s', (findEntry v fuel path).run (stdio img) s = some (.ok e, s')) ↔
      Leads img v v.rootExtent (components path) e := by
  obtain ⟨s₁, hrun⟩ := findEntry_run img v s hp ((length_components_le path).trans hf)
  rw [hrun, lookup, if_neg hroot, ← resolve_ok_iff]
  constructor
  · rintro ⟨s', h⟩
    exact (Prod.mk.inj (Option.some.inj h)).1
  · intro h
    exact ⟨s₁, by rw [h]⟩

theorem findEntry_root {fuel : Nat} {s s' : Stdio} {e : DirEntry}
    (h : (findEntry v fuel rootPath).run (stdio img) s = some (.ok e, s')) : e = DirEntry.root := by
  rw [findEntry, if_pos (strcmp_eq_zero.mpr rfl)] at h
  cases h
  rfl

/-- A string without bytes is no path. -/
theorem findEntry_nil {path : CStr} (hp : path.bytes = []) (fuel : Nat) (s : Stdio) :
    (findEntry v fuel path).run (stdio img) s = none := by
  have hroot : path ≠ rootPath := by
    rintro rfl
    cases hp
  rw [findEntry, if_neg (fun h => hroot (strcmp_eq_zero.mp h)), if_pos hp]
  rfl

theorem components_root : components rootPath = allComponents rootPath := by decide

theorem components_nil {path : CStr} (hp : path.bytes = []) :
    components path = allComponents path := by
  have hoff : (path.offset 1).bytes = [] := by
    rw [CStr.offset_bytes, hp]
    rfl
  rw [components, allComponents,
    strncpy_of_le (by rw [strlen, hoff]; exact Nat.zero_le _)]

/-! ## Copies that are enough -/

/-- The name fields of an entry in use. -/
structure DirEntry.InUse (e : DirEntry) : Prop where
  name : e.name.length = 8
  ext : e.ext.length = 3
  notEnd : ¬ e.isEnd
  notDeleted : ¬ e.isDeleted

/-- Some entry can have the name `c`. -/
def Nameable (c : CStr) : Prop := ∃ e : DirEntry, e.InUse ∧ e.named c

/-- The first 511 bytes after the slash have all components of the path, or no component, or one that
is the name of no entry. -/
def CopySuffices (path : CStr) : Prop :=
  components path = allComponents path ∨ components path = [] ∨
    ∃ c ∈ components path, ¬ Nameable c

/-- The live entries of a directory have names that an entry in use can have. -/
theorem inUse_of_mem_liveEntries {e : DirEntry} (n : Nat) :
    ∀ off, e ∈ liveEntries img off n → e.InUse := by
  induction n with
  | zero =>
    intro off h
    cases h
  | succ n ih =>
    intro off h
    rw [liveEntries] at h
    split at h
    · cases h
    · split at h
      · cases h
      · next hend =>
        split at h
        · exact ih _ h
        · next hskip =>
          rcases List.mem_cons.mp h with rfl | h
          · refine ⟨?_, ?_, hend, fun hdel => hskip (.inl hdel)⟩
            · simp [entryAt, DirEntry.decode, field, sizeofDirEntry]
            · simp [entryAt, DirEntry.decode, field, sizeofDirEntry]
          · exact ih _ h

/-- All components that lead to an entry are names of entries. -/
theorem Leads.nameable {x : Extent} {cs : List CStr} {e : DirEntry} (h : Leads img v x cs e) :
    ∀ c ∈ cs, Nameable c := by
  have hone : ∀ {x : Extent} {c : CStr} {d : DirEntry},
      (x.entries img).find? (DirEntry.named c) = some d → Nameable c := by
    intro x c d hf
    exact ⟨d, inUse_of_mem_liveEntries _ _ (List.mem_of_find?_eq_some hf),
      List.find?_some (p := DirEntry.named c) hf⟩
  induction h with
  | last hf =>
    intro c hc
    rw [List.mem_singleton.mp hc]
    exact hone hf
  | into hf hd hcs ih =>
    intro c hc
    rcases List.mem_cons.mp hc with rfl | hc
    · exact hone hf
    · exact ih c hc

theorem Leads.ne_nil {x : Extent} {cs : List CStr} {e : DirEntry} (h : Leads img v x cs e) :
    cs ≠ [] := by
  cases h with
  | last hf => exact List.cons_ne_nil _ _
  | into hf hd hcs => exact List.cons_ne_nil _ _

/-- On every image, what is found for a path whose copy is enough is what the whole path names. -/
theorem CopySuffices.sound {path : CStr} (h : CopySuffices path) : FindEntrySound img v path := by
  intro fuel s e s' hf hrun
  by_cases hroot : path = rootPath
  · subst hroot
    exact .inl ⟨rfl, findEntry_root hrun⟩
  · by_cases hp : path.bytes = []
    · rw [findEntry_nil hp] at hrun
      cases hrun
    · have he := (findEntry_ok_iff hp hroot hf s e).mp ⟨s', hrun⟩
      rcases h with hall | hnil | ⟨c, hc, hname⟩
      · rw [hall] at he
        exact .inr ⟨hroot, he⟩
      · exact absurd hnil he.ne_nil
      · exact absurd (he.nameable c hc) hname

/-- A path of at most 511 bytes after the slash is copied whole. -/
theorem copySuffices_of_le {path : CStr} (h : strlen path ≤ pathcopyLen + 1) :
    CopySuffices path := by
  refine .inl ?_
  rw [components, allComponents, strncpy_of_le]
  rw [strlen, CStr.offset_bytes, List.length_drop]
  rw [strlen] at h
  omega

/-! ## Directories in directories -/

/-- The slot with the name fields of `e` for the only entry of directory `k`: the next directory, or a
file in the last of `n` directories. -/
def nestedSlot (n : Nat) (e : Nat → DirEntry) (k : Nat) : List UInt8 :=
  if k < n then
    (e k).name ++ ((e k).ext ++ (if k + 1 < n then attrDirectory else 0) ::
      (List.replicate 14 0 ++ (leBytes 2 (k + 2) ++ List.replicate 4 0)))
  else []

/-- A volume of 512-byte clusters, with the layout of `twoClusters`. Each of `n` directories, the first
of them the root, has one entry. The second is cluster 2, the third cluster 3, and so on. -/
def nested (n : Nat) (e : Nat → DirEntry) : Image where
  size := 4219 * 512
  byte i :=
    if i < 9216 then twoClusters.byte i
    else (nestedSlot n e ((i - 9216) / 512)).getD ((i - 9216) % 512) 0

/-- Directory `k`. The root is where a cluster 1 would be. -/
def nestedExtent (k : Nat) : Extent := twoClustersVolume.clusterExtent (UInt16.ofNat (k + 1))

section Nested

variable {n : Nat} {e : Nat → DirEntry} {cs : List CStr}

/-- The entry of directory `k`. -/
def nestedEntry (n : Nat) (e : Nat → DirEntry) (k : Nat) : DirEntry :=
  DirEntry.decode (nestedSlot n e k)

theorem nested_mounts : sizeofBpb ≤ (nested n e).size ∧
    layout (bpbOf (nested n e)) = some twoClustersVolume := by
  have hslice : (nested n e).slice 0 sizeofBpb = twoClusters.slice 0 sizeofBpb := by
    have hbytes : ∀ m off, off + m ≤ 9216 →
        (nested n e).slice off m = twoClusters.slice off m := by
      intro m
      induction m with
      | zero =>
        intro off _
        rfl
      | succ m ih =>
        intro off h
        rw [Image.slice, Image.slice, ih (off + 1) (by omega)]
        exact congrArg (· :: _) (if_pos (by omega))
    exact hbytes _ _ (by decide)
  refine ⟨by show 62 ≤ 4219 * 512; decide, ?_⟩
  rw [bpbOf, hslice]
  decide +kernel

theorem length_nestedSlot {k : Nat} (hk : k < n) (he : (e k).InUse) :
    (nestedSlot n e k).length = 32 := by
  simp [nestedSlot, hk, he.name, he.ext]

/-- The fields that the walk reads of the entry of directory `k`. -/
theorem nestedEntry_fields {k : Nat} (hk : k < n) (he : (e k).InUse) :
    (nestedEntry n e k).name = (e k).name ∧ (nestedEntry n e k).ext = (e k).ext ∧
      (nestedEntry n e k).attr = (if k + 1 < n then attrDirectory else 0) ∧
      (nestedEntry n e k).firstCluster = UInt16.ofNat (k + 2) := by
  have hname := he.name
  have hext := he.ext
  simp only [nestedEntry, DirEntry.decode, nestedSlot, if_pos hk, field]
  generalize (if k + 1 < n then attrDirectory else 0) = attr
  generalize (e k).name = name at *
  generalize (e k).ext = ext at *
  refine ⟨?_, ?_, ?_, ?_⟩
  · rw [List.drop_zero, List.take_left' hname]
  · rw [List.drop_left' hname, List.take_left' hext]
  · rw [List.getD_append_right _ _ _ _ (by omega), List.getD_append_right _ _ _ _ (by omega), hname,
      hext]
    rfl
  · have hassoc : name ++ (ext ++ attr :: (List.replicate 14 0 ++
          (leBytes 2 (k + 2) ++ List.replicate 4 0))) =
        (name ++ ext ++ attr :: List.replicate 14 0) ++
          (leBytes 2 (k + 2) ++ List.replicate 4 0) := by
      simp only [List.append_assoc, List.cons_append]
    have hlen : (name ++ ext ++ attr :: List.replicate 14 0).length = 26 := by
      simp [hname, hext]
    rw [hassoc, List.drop_left' hlen, List.take_left' (length_leBytes 2 (k + 2)), leNat_leBytes,
      ← UInt16.toNat_inj, UInt16.toNat_ofNat', UInt16.toNat_ofNat']
    exact Nat.mod_mod _ _

theorem toNat_nestedExtent_start {k : Nat} (hk : k ≤ 511) :
    (nestedExtent k).start.toNat = 9216 + 512 * k := by
  have hc : (UInt16.ofNat (k + 1)).toUInt32.toNat = k + 1 := by
    rw [UInt16.toNat_toUInt32, UInt16.toNat_ofNat_of_lt' (by unfold UInt16.size; omega)]
  simp only [nestedExtent, Volume.clusterExtent, clusterToOffset, twoClustersVolume,
    UInt32.toNat_add, UInt32.toNat_mul, UInt32.toNat_sub, hc]
  change (9728 + (2 ^ 32 - 2 + (k + 1)) % 2 ^ 32 * 512 % 2 ^ 32) % 2 ^ 32 = _
  omega

/-- The bytes of a directory: its slot, and zeros. -/
theorem nested_byte {k j : Nat} (hj : j < 512) :
    (nested n e).byte (9216 + 512 * k + j) = (nestedSlot n e k).getD j 0 := by
  have hdiv : (9216 + 512 * k + j - 9216) / 512 = k := by omega
  have hmod : (9216 + 512 * k + j - 9216) % 512 = j := by omega
  rw [nested]
  simp only
  rw [if_neg (by omega), hdiv, hmod]

/-- Directory `k` has its one entry. -/
theorem nested_entries {k : Nat} (hn : n ≤ 511) (hk : k < n) (he : (e k).InUse) :
    (nestedExtent k).entries (nested n e) = [nestedEntry n e k] := by
  have hlen := length_nestedSlot hk he
  have hentry : entryAt (nested n e) (9216 + 512 * k) = nestedEntry n e k := by
    have hslice : (nested n e).slice (9216 + 512 * k) (nestedSlot n e k).length = nestedSlot n e k :=
      Image.slice_eq fun j hj => nested_byte (by omega)
    rw [hlen] at hslice
    rw [entryAt, sizeofDirEntry, hslice, nestedEntry]
  have hfields := nestedEntry_fields hk he
  have hlive : ¬ (nestedEntry n e k).isEnd ∧ ¬ (nestedEntry n e k).skipped := by
    have hattr : (nestedEntry n e k).attr ≠ attrLongName ∧ ¬ (nestedEntry n e k).isVolumeId := by
      rw [DirEntry.isVolumeId, hfields.2.2.1]
      split <;> decide
    refine ⟨?_, ?_⟩
    · rw [DirEntry.isEnd, hfields.1]
      exact he.notEnd
    · rw [DirEntry.skipped, DirEntry.isDeleted, hfields.1]
      rintro (hdel | hlong | hvol)
      · exact he.notDeleted hdel
      · exact hattr.1 hlong
      · exact hattr.2 hvol
  have hsize : 9216 + 512 * k + 64 ≤ (nested n e).size := by
    change _ ≤ 4219 * 512
    omega
  have hnext : (entryAt (nested n e) (9216 + 512 * k + 32)).isEnd := by
    change (nested n e).byte (9216 + 512 * k + 32) = 0
    rw [nested_byte (by decide), List.getD_eq_default _ _ (by omega)]
  rw [Extent.entries, toNat_nestedExtent_start (by omega)]
  change liveEntries (nested n e) (9216 + 512 * k) (14 + 1 + 1) = _
  rw [liveEntries, hentry, if_neg (by unfold sizeofDirEntry; omega), if_neg hlive.1,
    if_neg hlive.2, liveEntries, sizeofDirEntry, if_neg (by omega), if_pos hnext]

/-- The next directory is a directory, and the last has a file. -/
theorem nestedEntry_isDirectory {k : Nat} (hk : k < n) (he : (e k).InUse) :
    (nestedEntry n e k).isDirectory ↔ k + 1 < n := by
  rw [DirEntry.isDirectory, (nestedEntry_fields hk he).2.2.1]
  by_cases h : k + 1 < n
  · rw [if_pos h]
    exact iff_of_true (by decide) h
  · rw [if_neg h]
    exact iff_of_false (by decide) h

theorem nestedEntry_next {k : Nat} (hk : k < n) (he : (e k).InUse) :
    twoClustersVolume.clusterExtent (nestedEntry n e k).firstCluster = nestedExtent (k + 1) := by
  rw [(nestedEntry_fields hk he).2.2.2]
  rfl

theorem nestedEntry_named {k : Nat} (hk : k < n) (he : (e k).InUse) (c : CStr) :
    (nestedEntry n e k).named c = (e k).named c := by
  have hfields := nestedEntry_fields hk he
  rw [DirEntry.named, DirEntry.named, formatName, formatName, hfields.1, hfields.2.1]

/-- The names of the directories lead to the file in the last of them. -/
theorem nested_leads (hn : n ≤ 511) (hlen : cs.length = n) (he : ∀ k < n, (e k).InUse)
    (hnamed : ∀ (k : Nat) (hk : k < cs.length), (e k).named cs[k]) :
    ∀ m k, k + m + 1 = n →
      Leads (nested n e) twoClustersVolume (nestedExtent k) (cs.drop k) (nestedEntry n e (n - 1)) := by
  have hfind : ∀ (k : Nat) (hk : k < cs.length), ((nestedExtent k).entries (nested n e)).find?
      (DirEntry.named cs[k]) = some (nestedEntry n e k) := by
    intro k hk
    have hkn : k < n := hlen ▸ hk
    rw [nested_entries hn hkn (he k hkn), List.find?_cons_of_pos]
    rw [nestedEntry_named hkn (he k hkn)]
    exact hnamed k hk
  intro m
  induction m with
  | zero =>
    intro k hk
    have hkl : k < cs.length := by omega
    have hlast : n - 1 = k := by omega
    rw [List.drop_eq_getElem_cons hkl, List.drop_of_length_le (by omega), hlast]
    exact .last (hfind k hkl)
  | succ m ih =>
    intro k hk
    have hkl : k < cs.length := by omega
    have hkn : k < n := by omega
    rw [List.drop_eq_getElem_cons hkl]
    refine .into (hfind k hkl) ((nestedEntry_isDirectory hkn (he k hkn)).mpr (by omega)) ?_
    rw [nestedEntry_next hkn (he k hkn)]
    exact ih (k + 1) (by omega)

/-- Components that lead to that file are as many as the directories, with names of the same
lengths. -/
theorem lengths_of_nested_leads (hn : n ≤ 511) (hlen : cs.length = n) (he : ∀ k < n, (e k).InUse)
    (hnamed : ∀ (k : Nat) (hk : k < cs.length), (e k).named cs[k]) {x : Extent} {ds : List CStr}
    {d : DirEntry} (h : Leads (nested n e) twoClustersVolume x ds d) :
    ∀ k < n, x = nestedExtent k → d = nestedEntry n e (n - 1) →
      ds.map strlen = (cs.drop k).map strlen := by
  have hone : ∀ (k : Nat) (hk : k < cs.length) (c : CStr) (d : DirEntry),
      ((nestedExtent k).entries (nested n e)).find? (DirEntry.named c) = some d →
        d = nestedEntry n e k ∧ strlen c = strlen cs[k] := by
    intro k hk c d hf
    have hkn : k < n := hlen ▸ hk
    rw [nested_entries hn hkn (he k hkn)] at hf
    have hd := List.mem_singleton.mp (List.mem_of_find?_eq_some hf)
    have hc := List.find?_some (p := DirEntry.named c) hf
    rw [hd, nestedEntry_named hkn (he k hkn)] at hc
    refine ⟨hd, ?_⟩
    rw [← strlen_eq_of_strcasecmp (of_decide_eq_true hc)]
    exact strlen_eq_of_strcasecmp (of_decide_eq_true (hnamed k hk))
  induction h with
  | last hf =>
    rintro k hk rfl rfl
    have hkl : k < cs.length := by omega
    obtain ⟨hd, hc⟩ := hone k hkl _ _ hf
    -- an entry that is not a directory is in the last of them
    have hlast : n = k + 1 := by
      by_contra hne
      have hdir := (nestedEntry_isDirectory hk (he k hk)).mpr (by omega)
      rw [← hd, nestedEntry_isDirectory (by omega) (he _ (by omega))] at hdir
      omega
    rw [List.drop_eq_getElem_cons hkl, List.drop_of_length_le (by omega), List.map_cons,
      List.map_cons, hc]
  | into hf hd hcs ih =>
    rintro k hk rfl hlast
    have hkl : k < cs.length := by omega
    obtain ⟨rfl, hc⟩ := hone k hkl _ _ hf
    have hnext := (nestedEntry_isDirectory hk (he k hk)).mp hd
    rw [List.drop_eq_getElem_cons hkl, List.map_cons, List.map_cons, hc,
      ih (k + 1) hnext (nestedEntry_next hk (he k hk)) hlast]

end Nested

/-- For every path: on every image that has a layout, what `find_entry` finds is what the whole path
names, exactly if the copy of the path is enough. -/
theorem findEntry_sound_iff (path : CStr) :
    (∀ img v, sizeofBpb ≤ img.size ∧ layout (bpbOf img) = some v → FindEntrySound img v path) ↔
      CopySuffices path := by
  refine ⟨fun h => ?_, fun h img v _ => h.sound⟩
  by_contra hcut
  obtain ⟨hall, hcs, hname⟩ : components path ≠ allComponents path ∧ components path ≠ [] ∧
      ∀ c ∈ components path, Nameable c := by
    refine ⟨fun hall => hcut (.inl hall), fun hnil => hcut (.inr (.inl hnil)), fun c hc => ?_⟩
    by_contra hno
    exact hcut (.inr (.inr ⟨c, hc, hno⟩))
  have hroot : path ≠ rootPath := by
    rintro rfl
    exact hall components_root
  have hp : path.bytes ≠ [] := fun hp => hall (components_nil hp)
  -- a name of an entry for each component of the copy, and a directory for each of the names
  have hsome : ∀ k, ∃ e : DirEntry, ∀ hk : k < (components path).length,
      e.InUse ∧ e.named (components path)[k] := by
    intro k
    by_cases hk : k < (components path).length
    · obtain ⟨e, he⟩ := hname _ (List.getElem_mem hk)
      exact ⟨e, fun _ => he⟩
    · exact ⟨DirEntry.root, fun hk' => absurd hk' hk⟩
  choose e he using hsome
  have hn := length_components_le path
  have hpos := List.length_pos_of_ne_nil hcs
  have hinUse : ∀ k < (components path).length, (e k).InUse := fun k hk => (he k hk).1
  have hnamed : ∀ k hk, (e k).named (components path)[k] := fun k hk => (he k hk).2
  have hleads := nested_leads hn rfl hinUse hnamed ((components path).length - 1) 0 (by omega)
  have hextent : nestedExtent 0 = twoClustersVolume.rootExtent := rfl
  rw [List.drop_zero, hextent] at hleads
  obtain ⟨s', hrun⟩ := (findEntry_ok_iff hp hroot (Nat.le_refl pathcopyLen) ⟨0, rootPath⟩ _).mpr
    hleads
  rcases h _ _ nested_mounts _ _ _ s' (Nat.le_refl _) hrun with ⟨hr, -⟩ | ⟨-, hwhole⟩
  · exact hroot hr
  · have hlengths := lengths_of_nested_leads hn rfl hinUse hnamed hwhole 0 (by omega) hextent.symm rfl
    rw [List.drop_zero] at hlengths
    exact hall (tokens_strncpy_of_lengths hlengths)

/-! ## A directory in itself -/

/-- A volume of 512-byte clusters. The root directory holds a directory `D`, whose cluster holds its
own entry again. -/
def selfDirectory : Image := Image.sparse (4219 * 512) [
  (11, [0, 2, 1, 1, 0, 1, 16, 0, 0x7B, 0x10, 0xF8, 17, 0]),
  (512, [0xF8, 0xFF, 0xFF, 0xFF, 0xFF, 0xFF]),
  (9216, slotBytes [0x44] attrDirectory 2 0),
  (9728, slotBytes [0x44] attrDirectory 2 0)]

/-- `/D`, 256 times, and then `/X`. -/
def deepPath : CStr :=
  CStr.ofBuf (slash :: (List.replicate 256 [0x44, slash]).flatten ++ [0x58])

/-- A walk that stays in one directory, which holds its own entry. -/
theorem resolve_replicate {x : Extent} {c : CStr} {e : DirEntry}
    (hf : (x.entries img).find? (DirEntry.named c) = some e) (hd : e.isDirectory)
    (hx : v.clusterExtent e.firstCluster = x) (n : Nat) :
    resolve img v x (List.replicate (n + 1) c) = .ok e := by
  refine (resolve_ok_iff _ _ _).mpr ?_
  induction n with
  | zero => exact .last hf
  | succ n ih =>
    refine .into hf hd ?_
    rw [hx]
    exact ih

theorem components_deepPath :
    components deepPath = List.replicate 256 nameD ∧
      allComponents deepPath = List.replicate 256 nameD ++ [CStr.ofBuf [0x58]] := by
  decide +kernel

/-- The path names nothing: there is no `X`. `find_entry` returns the entry of the directory that the
last whole name of its copy leads to. -/
theorem findEntry_finds_ancestor :
    (∃ s', (findEntry twoClustersVolume pathcopyLen deepPath).run (stdio selfDirectory)
        ⟨0, rootPath⟩ = some (.ok (entryAt selfDirectory 9728), s')) ∧
      ¬ FindEntrySound selfDirectory twoClustersVolume deepPath := by
  have hroot : deepPath ≠ rootPath := by
    intro h
    have hcs := components_deepPath.1
    rw [h] at hcs
    exact absurd hcs (by decide +kernel)
  have hcut : resolve selfDirectory twoClustersVolume twoClustersVolume.rootExtent
      (List.replicate 256 nameD) = .ok (entryAt selfDirectory 9728) := by
    have hinner : resolve selfDirectory twoClustersVolume (twoClustersVolume.clusterExtent 2)
        (List.replicate 255 nameD) = .ok (entryAt selfDirectory 9728) := by
      have hfirst : (entryAt selfDirectory 9728).firstCluster = 2 := by decide +kernel
      exact resolve_replicate (by decide +kernel) (by decide +kernel) (by rw [hfirst]) 254
    have houter : (entryAt selfDirectory 9216).firstCluster = 2 := by decide +kernel
    refine (resolve_ok_iff _ _ _).mpr (.into (d := entryAt selfDirectory 9216) ?_ ?_ ?_)
    · decide +kernel
    · decide +kernel
    · rw [houter]
      exact (resolve_ok_iff _ _ _).mp hinner
  have hall : resolve selfDirectory twoClustersVolume twoClustersVolume.rootExtent
      (List.replicate 256 nameD ++ [CStr.ofBuf [0x58]]) = .error (-ENOENT) := by
    rw [resolve_append _ _ (by decide +kernel) _ _ _ hcut]
    decide +kernel
  rw [← components_deepPath.1] at hcut
  rw [← components_deepPath.2] at hall
  have hfind := (findEntry_ok_iff (by decide +kernel) hroot (Nat.le_refl pathcopyLen)
    ⟨0, rootPath⟩ _).mpr ((resolve_ok_iff _ _ _).mp hcut)
  refine ⟨hfind, ?_⟩
  intro h
  obtain ⟨s', hrun⟩ := hfind
  rcases h _ _ _ s' (Nat.le_refl _) hrun with ⟨hr, -⟩ | ⟨-, hnamed⟩
  · exact hroot hr
  · rw [(resolve_ok_iff _ _ _).mpr hnamed] at hall
    cases hall

end Fat16
