import LinuxHandson.Fat16.Proofs.LayoutProofs
import LinuxHandson.Fat16.Proofs.LookupProofs

/-!
# Which directories the driver shows completely

The scans of `find_entry` and `fusefat_readdir` look at the first cluster of a subdirectory only,
and `find_entry` at the first 511 bytes of a path. The driver shows every entry of every directory
exactly when no entry lies beyond either bound.
-/

namespace Fat16

open CLib

variable {img : Image} {v : Volume}

/-- The driver emits the entry in the listing of the directory `p` and finds it under its name, which is
`formatName`: what follows an inner space in the name or the extension is not part of it. -/
def Shown (img : Image) (v : Volume) (p : CStr) (e : DirEntry) : Prop :=
  ∀ fuel, pathcopyLen ≤ fuel → ∀ s,
    (∃ names s', (fusefatReaddir v fuel p).run (stdio img) s = some ((0, names), s') ∧
      formatName e ∈ names) ∧
    ∃ s', (findEntry v fuel (child p (formatName e))).run (stdio img) s = some (.ok e, s')

/-- The driver shows every live entry of every directory of the image. -/
def Complete (img : Image) (v : Volume) : Prop :=
  ∀ cs d, Dir.At img v cs d → ∀ e ∈ d.entries img v, Shown img v (pathOf cs) e

/-- The root directory, or the first cluster of a subdirectory. -/
def Dir.firstExtent (v : Volume) : Dir → Extent
  | .root => v.rootExtent
  | .sub c => v.clusterExtent c

/-- Every live entry of a subdirectory is stored in its first cluster. -/
def FirstClusterOnly (img : Image) (v : Volume) : Prop :=
  ∀ cs d, Dir.At img v cs d → ∀ e ∈ d.entries img v, e ∈ (d.firstExtent v).entries img

/-- The path of every entry has at most 511 bytes after its leading slash. -/
def ShortPaths (img : Image) (v : Volume) : Prop :=
  ∀ cs d, Dir.At img v cs d → ∀ e ∈ d.entries img v,
    strlen (child (pathOf cs) (formatName e)) ≤ pathcopyLen + 1

/-! ## Paths of directories -/

theorem head?_foldl_child (cs : List CStr) :
    ∀ p : CStr, p.bytes.head? = some slash → (cs.foldl child p).bytes.head? = some slash := by
  induction cs with
  | nil => intro p hp; exact hp
  | cons c cs ih => intro p hp; exact ih (child p c) (head?_child hp)

theorem head?_pathOf (cs : List CStr) : (pathOf cs).bytes.head? = some slash :=
  head?_foldl_child cs rootPath rfl

theorem root_isDirectory : DirEntry.root.isDirectory := by decide

theorem pathOf_ne_root {cs : List CStr} {c : CStr} (hc : IsComponent c) :
    pathOf (cs ++ [c]) ≠ rootPath := by
  rw [pathOf_append]
  exact child_ne_root hc

/-- A directory whose path `find_entry` finds is scanned at its first extent. -/
def Located (img : Image) (v : Volume) (cs : List CStr) (d : Dir) : Prop :=
  ∃ e, lookup img v (pathOf cs) = .ok e ∧ e.isDirectory ∧
    listedExtent v (pathOf cs) e = d.firstExtent v

theorem located_root : Located img v [] .root :=
  ⟨DirEntry.root, if_pos rfl, root_isDirectory, if_pos rfl⟩

/-- A subdirectory is located when its entry is found. -/
theorem located_sub {cs : List CStr} {e : DirEntry} (hc : IsComponent (formatName e))
    (hdir : e.isDirectory) (hfind : lookup img v (child (pathOf cs) (formatName e)) = .ok e) :
    Located img v (cs ++ [formatName e]) (.sub e.firstCluster) := by
  rw [← pathOf_append] at hfind
  exact ⟨e, hfind, hdir, if_neg (pathOf_ne_root hc)⟩

/-- What `Shown` says of the functions that the runs compute. -/
theorem Shown.lookup_eq {p : CStr} {e : DirEntry} (hp : p.bytes.head? = some slash)
    (h : Shown img v p e) : lookup img v (child p (formatName e)) = .ok e := by
  obtain ⟨-, s', hfind⟩ := h pathcopyLen le_rfl ⟨0, rootPath⟩
  obtain ⟨s'', hrun⟩ := findEntry_run img v ⟨0, rootPath⟩
    (ne_nil_of_head? (head?_child (c := formatName e) hp)) (length_components_le _)
  rw [hfind] at hrun
  exact (Prod.mk.inj (Option.some.inj hrun)).1.symm

theorem shown_of_located {cs : List CStr} {d : Dir} {e : DirEntry} (hd : Located img v cs d)
    (he : e ∈ (d.firstExtent v).entries img)
    (hfind : lookup img v (child (pathOf cs) (formatName e)) = .ok e) :
    Shown img v (pathOf cs) e := by
  intro fuel hf s
  obtain ⟨g, hg, -, hext⟩ := hd
  have hp := head?_pathOf cs
  obtain ⟨s₁, hread⟩ := fusefatReaddir_run img v s (ne_nil_of_head? hp) hf hg
  obtain ⟨s₂, hrun⟩ := findEntry_run img v s
    (ne_nil_of_head? (head?_child (c := formatName e) hp)) ((length_components_le _).trans hf)
  rw [hext] at hread
  rw [hfind] at hrun
  refine ⟨⟨_, s₁, hread, ?_⟩, s₂, hrun⟩
  exact List.mem_cons_of_mem _ (List.mem_cons_of_mem _ (List.mem_map_of_mem he))

/-- The lookup of a name in a located directory. -/
theorem Located.lookup_child {cs : List CStr} {d : Dir} {c : CStr} (hd : Located img v cs d)
    (hc : IsComponent c) (hlen : strlen (child (pathOf cs) c) ≤ pathcopyLen + 1) :
    lookup img v (child (pathOf cs) c) = resolve img v (d.firstExtent v) [c] := by
  obtain ⟨g, hg, hdir, hext⟩ := hd
  rw [Fat16.lookup_child img v (head?_pathOf cs) hc hlen hg hdir, hext]

/-! ## Entries within the bounds are shown -/

/-- The entries of the first cluster come first. -/
theorem firstExtent_isPrefix (h : WellFormed img v) {cs : List CStr} {d : Dir}
    (hd : Dir.At img v cs d) : (d.firstExtent v).entries img <+: d.entries img v := by
  cases hd with
  | root =>
    refine ⟨[], ?_⟩
    rw [List.append_nil]
    exact h.root_entries
  | @sub cs d e hd he hdir hdots =>
    have hc := (h.chains cs d hd e he (Or.inl ⟨hdir, hdots⟩)).1
    rw [Dir.firstExtent, (h.clusterExtent_inImage hc).entries_eq, Dir.entries, Dir.extents, chain,
      chainUpTo, if_pos (h.cluster_lt hc), List.map_cons, List.flatMap_cons]
    exact live_prefix_append _ _

/-- Among entries of distinct names, the search for the name of one finds it. -/
theorem find?_named_of_mem {l : List DirEntry} {e : DirEntry}
    (hl : l.Pairwise fun e e' => strcasecmp (formatName e) (formatName e') ≠ 0) (he : e ∈ l) :
    l.find? (DirEntry.named (formatName e)) = some e := by
  induction l with
  | nil => cases he
  | cons a l ih =>
    obtain ⟨ha, hl⟩ := List.pairwise_cons.mp hl
    rcases List.mem_cons.mp he with rfl | he
    · exact List.find?_cons_of_pos (decide_eq_true (strcasecmp_eq_zero.mpr rfl))
    · rw [List.find?_cons_of_neg]
      · exact ih hl he
      · exact fun h => ha e he (of_decide_eq_true h)

theorem resolve_single_of_find? {x : Extent} {c : CStr} {e : DirEntry}
    (h : (x.entries img).find? (DirEntry.named c) = some e) : resolve img v x [c] = .ok e := by
  rw [resolve, h]

theorem lookup_of_located (h : WellFormed img v) (hfirst : FirstClusterOnly img v)
    (hshort : ShortPaths img v) {cs : List CStr} {d : Dir} {e : DirEntry}
    (hd : Dir.At img v cs d) (hl : Located img v cs d) (he : e ∈ d.entries img v) :
    lookup img v (child (pathOf cs) (formatName e)) = .ok e := by
  rw [hl.lookup_child (h.names cs d hd e he) (hshort cs d hd e he)]
  exact resolve_single_of_find? (find?_named_of_mem
    ((h.distinct cs d hd).sublist (firstExtent_isPrefix h hd).sublist) (hfirst cs d hd e he))

/-- By induction on the depth: every directory is located. -/
theorem located_of_bounds (h : WellFormed img v) (hfirst : FirstClusterOnly img v)
    (hshort : ShortPaths img v) {cs : List CStr} {d : Dir} (hd : Dir.At img v cs d) :
    Located img v cs d := by
  induction hd with
  | root => exact located_root
  | @sub cs d e hd he hdir _ ih =>
    exact located_sub (h.names cs d hd e he) hdir (lookup_of_located h hfirst hshort hd ih he)

/-! ## Entries beyond a bound are not all shown -/

/-- When all entries are shown, every directory is located. -/
theorem Complete.located (h : WellFormed img v) (hcomp : Complete img v) {cs : List CStr} {d : Dir}
    (hd : Dir.At img v cs d) : Located img v cs d := by
  cases hd with
  | root => exact located_root
  | @sub cs d e hd he hdir _ =>
    exact located_sub (h.names cs d hd e he) hdir ((hcomp cs d hd e he).lookup_eq (head?_pathOf cs))

theorem strcasecmp_length {s t : CStr} (h : strcasecmp s t = 0) : strlen s = strlen t := by
  have hmap := congrArg List.length (strcasecmp_eq_zero.mp h)
  rw [List.length_map, List.length_map] at hmap
  exact hmap

theorem strlen_formatName_le (e : DirEntry) : strlen (formatName e) ≤ 12 := by
  have hbuf : ∀ l : List UInt8, strlen (CStr.ofBuf l) ≤ l.length := fun l =>
    (List.takeWhile_sublist _).length_le
  have hname : ((e.name.take 8).takeWhile (· != space)).length ≤ 8 :=
    (List.takeWhile_sublist _).length_le.trans (List.length_take_le 8 _)
  have hext : ((e.ext.take 3).takeWhile (· != space)).length ≤ 3 :=
    (List.takeWhile_sublist _).length_le.trans (List.length_take_le 3 _)
  refine (hbuf _).trans ?_
  rw [List.length_append]
  split
  · rw [List.length_cons]
    omega
  · rw [List.length_nil]
    omega

/-- The components of `p/c` when the limit cuts off the end of `c`, or all of it. -/
theorem components_cut {p c : CStr} (hp : p.bytes.head? = some slash) (hroot : p ≠ rootPath)
    (hc : IsComponent c) (hlen : strlen p ≤ pathcopyLen + 1)
    (hlong : pathcopyLen + 1 < strlen (child p c)) :
    components (child p c) = components p ∨
      ∃ k, k < strlen c ∧ components (child p c) = components p ++ [strncpy c k] := by
  obtain ⟨r, hr⟩ := List.head?_eq_some_iff.mp hp
  rw [strlen, hr, List.length_cons] at hlen
  rw [strlen, child_bytes hr hroot, List.length_cons, List.length_append, List.length_cons]
    at hlong
  rw [components_eq, components_eq, child_bytes hr hroot, hr, List.drop_succ_cons,
    List.drop_succ_cons, List.drop_zero, List.drop_zero, List.take_append,
    List.take_of_length_le (by omega)]
  rcases hk : pathcopyLen - r.length with _ | k
  · left
    rw [List.take_zero, List.append_nil]
  · rw [List.take_succ_cons, tokenBytes_append_delim]
    have hno : slash ∉ c.bytes.take k := fun h => hc.2 (List.mem_of_mem_take h)
    rw [tokenBytes_of_no_delim hno]
    split
    · left
      rw [List.append_nil]
    · right
      refine ⟨k, by rw [strlen]; omega, ?_⟩
      rw [List.map_append]
      exact congrArg (_ ++ [·]) (strncpy c k).ofBuf_bytes

theorem mem_chain_self (h : WellFormed img v) {c : UInt16} (hc : (bpbOf img).IsCluster c) :
    c ∈ chain img v c := by
  rw [chain, chainUpTo, if_pos (h.cluster_lt hc)]
  exact List.mem_cons_self

/-- No directory has an entry for itself other than the dots. -/
theorem entry_ne_parent (h : WellFormed img v) {cs : List CStr} {d : Dir} {g : DirEntry}
    (hd : Dir.At img v cs d) (hg : g ∈ d.entries img v) (hdir : g.isDirectory)
    (hdots : ¬ g.isDots) : g ∉ (Dir.sub g.firstCluster).entries img v := by
  intro hmem
  have hg1 := Dir.At.sub hd hg hdir hdots
  have hg2 := Dir.At.sub hg1 hmem hdir hdots
  have hc := mem_chain_self h (h.chains cs d hd g hg (Or.inl ⟨hdir, hdots⟩)).1
  have heq := congrArg List.length (h.tree _ _ _ _ _ hg1 hg2 hc hc)
  simp at heq

/-- A cut path leads to another entry than the one it was meant for, or to none. -/
theorem lookup_cut_ne (h : WellFormed img v) (hcomp : Complete img v) {cs : List CStr} {d : Dir}
    {e : DirEntry} (hd : Dir.At img v cs d) (he : e ∈ d.entries img v)
    (hcs : strlen (pathOf cs) ≤ pathcopyLen + 1)
    (hlong : pathcopyLen + 1 < strlen (child (pathOf cs) (formatName e))) :
    lookup img v (child (pathOf cs) (formatName e)) ≠ .ok e := by
  have hname := strlen_formatName_le e
  have hc := h.names cs d hd e he
  cases hd with
  | root =>
    have hlen : strlen (child (pathOf []) (formatName e)) = 1 + strlen (formatName e) := by
      rw [strlen, pathOf, List.foldl_nil, child, if_pos rfl, CStr.append, List.length_append]
      rfl
    rw [hlen, pathcopyLen] at hlong
    omega
  | @sub cs d g hd hg hdir hdots =>
    have hroot := @pathOf_ne_root cs _ (h.names cs d hd g hg)
    have hfind := (hcomp cs d hd g hg).lookup_eq (head?_pathOf cs)
    rw [← pathOf_append, lookup, if_neg hroot] at hfind
    intro hcut
    rw [lookup, if_neg (child_ne_root hc)] at hcut
    rcases components_cut (head?_pathOf _) hroot hc hcs hlong with hcomps | ⟨k, hk, hcomps⟩
    · rw [hcomps, hfind] at hcut
      obtain rfl := Except.ok.inj hcut
      exact entry_ne_parent h hd hg hdir hdots he
    · rw [hcomps, resolve_append img v hdir _ _ _ hfind] at hcut
      have hnamed := List.find?_some (p := DirEntry.named _) (find?_of_resolve_single img v hcut)
      have hlen := strcasecmp_length (of_decide_eq_true hnamed)
      rw [strlen, strlen, strncpy, List.length_take] at hlen
      rw [strlen] at hk
      omega

/-- When all entries are shown, the path of every directory is short. -/
theorem Complete.path_short (h : WellFormed img v) (hcomp : Complete img v) {cs : List CStr}
    {d : Dir} (hd : Dir.At img v cs d) : strlen (pathOf cs) ≤ pathcopyLen + 1 := by
  induction hd with
  | root => decide
  | @sub cs d e hd he _ _ ih =>
    rw [pathOf_append]
    by_contra hlong
    exact lookup_cut_ne h hcomp hd he ih (Nat.lt_of_not_le hlong)
      ((hcomp cs d hd e he).lookup_eq (head?_pathOf cs))

theorem Complete.shortPaths (h : WellFormed img v) (hcomp : Complete img v) :
    ShortPaths img v := by
  intro cs d hd e he
  by_contra hlong
  exact lookup_cut_ne h hcomp hd he (hcomp.path_short h hd)
    (Nat.lt_of_not_le hlong) ((hcomp cs d hd e he).lookup_eq (head?_pathOf cs))

theorem Complete.firstClusterOnly (h : WellFormed img v) (hcomp : Complete img v) :
    FirstClusterOnly img v := by
  intro cs d hd e he
  have hfind := (hcomp cs d hd e he).lookup_eq (head?_pathOf cs)
  rw [(hcomp.located h hd).lookup_child (h.names cs d hd e he)
    (hcomp.shortPaths h cs d hd e he)] at hfind
  exact List.mem_of_find?_eq_some (find?_of_resolve_single img v hfind)

/-- On a well-formed image, the driver shows every entry of every directory exactly when all
entries of the subdirectories lie in their first clusters and all paths have at most 511 bytes
after the leading slash. -/
theorem complete_iff (h : WellFormed img v) :
    Complete img v ↔ FirstClusterOnly img v ∧ ShortPaths img v := by
  constructor
  · intro hcomp
    exact ⟨hcomp.firstClusterOnly h, hcomp.shortPaths h⟩
  · rintro ⟨hfirst, hshort⟩ cs d hd e he
    have hl := located_of_bounds h hfirst hshort hd
    exact shown_of_located hl (hfirst cs d hd e he)
      (lookup_of_located h hfirst hshort hd hl he)

theorem complete_iff_twoClusters :
    Complete twoClusters twoClustersVolume ↔
      FirstClusterOnly twoClusters twoClustersVolume ∧ ShortPaths twoClusters twoClustersVolume :=
  complete_iff twoClusters_wellFormed

/-- `find_entry` does not find the file `Z` in the second cluster of `/D`. -/
theorem twoClusters_not_complete :
    WellFormed twoClusters twoClustersVolume ∧ ¬ Complete twoClusters twoClustersVolume := by
  refine ⟨twoClusters_wellFormed, fun hcomp => ?_⟩
  have hD : Dir.At twoClusters twoClustersVolume [nameD] (.sub 2) := by
    have hname : formatName (entryAt twoClusters 9216) = nameD := by decide +kernel
    have hfirst : (entryAt twoClusters 9216).firstCluster = 2 := by decide +kernel
    rw [← hname, ← hfirst]
    exact Dir.At.sub .root (by decide +kernel) (by decide +kernel) (by decide +kernel)
  have hZ : entryAt twoClusters 10240 ∈ (Dir.sub 2).entries twoClusters twoClustersVolume := by
    decide +kernel
  have hfind := (hcomp _ _ hD _ hZ).lookup_eq (head?_pathOf _)
  exact absurd hfind (by decide +kernel)

end Fat16
