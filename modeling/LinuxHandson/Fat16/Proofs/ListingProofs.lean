import LinuxHandson.Fat16.Proofs.CompletenessProofs

/-!
# The names of a listing

`fusefat_readdir` hands over `.` and `..` by itself and then the names of the slots. A name comes twice
where the slots have those two as well, which is so in the first cluster of every ordinary subdirectory.
-/

namespace Fat16

open CLib

/-- The live entries that `fusefat_readdir` goes through. -/
def listedEntries (img : Image) (v : Volume) (path : CStr) (d : DirEntry) : List DirEntry :=
  (listedExtent v path d).entries img

theorem formatName_pairwise_iff {l : List DirEntry} :
    (l.map formatName).Nodup ↔ l.Pairwise fun e e' => formatName e ≠ formatName e' :=
  List.pairwise_map

/-- Names that are different stay so after `.` and `..` unless they are among them. -/
theorem names_nodup_iff {l : List DirEntry}
    (h : l.Pairwise fun e e' => formatName e ≠ formatName e') :
    (dot :: dotdot :: l.map formatName).Nodup ↔ ∀ e ∈ l, ¬ e.isDots := by
  have hne : dot ≠ dotdot := by decide
  rw [List.nodup_cons, List.nodup_cons, formatName_pairwise_iff]
  simp only [List.mem_cons, List.mem_map, not_or, not_exists, not_and, DirEntry.isDots]
  constructor
  · rintro ⟨⟨-, hdot⟩, hdotdot, -⟩ e he
    exact ⟨hdot e he, hdotdot e he⟩
  · intro hno
    exact ⟨⟨hne, fun e he => (hno e he).1⟩, fun e he => (hno e he).2, h⟩

/-- A listing of a directory whose live names are pairwise different passes each name once if and only if
none of the slots that it goes through is a live entry `.` or `..`. -/
theorem readdir_nodup_iff (img : Image) (v : Volume) {path : CStr} {fuel : Nat} {d : DirEntry}
    (hp : path.bytes ≠ []) (hf : pathcopyLen ≤ fuel) (hd : lookup img v path = .ok d)
    (hnames : (listedEntries img v path d).Pairwise fun e e' => formatName e ≠ formatName e')
    (s : Stdio) :
    ∃ names s', (fusefatReaddir v fuel path).run (stdio img) s = some ((0, names), s') ∧
      (names.Nodup ↔ ∀ e ∈ listedEntries img v path d, ¬ e.isDots) := by
  obtain ⟨s', hrun⟩ := fusefatReaddir_run img v s hp hf hd
  exact ⟨_, s', hrun, names_nodup_iff hnames⟩

/-- The root directory of `twoClusters`, whose names are all listed once. -/
theorem readdir_nodup_root :
    ∃ names s', (fusefatReaddir twoClustersVolume 511 rootPath).run (stdio twoClusters)
      ⟨0, rootPath⟩ = some ((0, names), s') ∧ names.Nodup := by
  have hpair : (listedEntries twoClusters twoClustersVolume rootPath DirEntry.root).Pairwise
      fun e e' => formatName e ≠ formatName e' := by decide +kernel
  obtain ⟨names, s', hrun, hiff⟩ := @readdir_nodup_iff twoClusters twoClustersVolume rootPath _ _
    (by decide) le_rfl rfl hpair ⟨0, rootPath⟩
  exact ⟨names, s', hrun, hiff.mpr (by decide +kernel)⟩

/-- The directory `/D` of `twoClusters` is listed with `.` and `..` twice, though its own names are
pairwise different. -/
theorem readdir_dots_twice :
    WellFormed twoClusters twoClustersVolume ∧
      Dir.At twoClusters twoClustersVolume [nameD] (.sub 2) ∧
      ∃ names s', (fusefatReaddir twoClustersVolume 511 (pathOf [nameD])).run (stdio twoClusters)
        ⟨0, rootPath⟩ = some ((0, names), s') ∧ ¬ names.Nodup := by
  have hat : Dir.At twoClusters twoClustersVolume [nameD] (.sub 2) := by
    have hname : formatName (entryAt twoClusters 9216) = nameD := by decide +kernel
    have hfirst : (entryAt twoClusters 9216).firstCluster = 2 := by decide +kernel
    rw [← hname, ← hfirst]
    exact Dir.At.sub .root (by decide +kernel) (by decide +kernel) (by decide +kernel)
  have hlookup : lookup twoClusters twoClustersVolume (pathOf [nameD]) =
      .ok (entryAt twoClusters 9216) := by decide +kernel
  have hdots : dot ∈ ((listedExtent twoClustersVolume (pathOf [nameD])
      (entryAt twoClusters 9216)).entries twoClusters).map formatName := by decide +kernel
  obtain ⟨s', hrun⟩ := @fusefatReaddir_run twoClusters twoClustersVolume 511 (pathOf [nameD]) _
    ⟨0, rootPath⟩ (by decide) le_rfl hlookup
  refine ⟨twoClusters_wellFormed, hat, _, s', hrun, fun hnodup => ?_⟩
  exact (List.nodup_cons.mp hnodup).1 (List.mem_cons_of_mem _ hdots)

end Fat16
