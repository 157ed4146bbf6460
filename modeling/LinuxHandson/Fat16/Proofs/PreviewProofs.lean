import LinuxHandson.Fat16.FatParser
import LinuxHandson.Fat16.Proofs.CompletenessProofs

/-!
# The preview of the parser against the driver

`fat_parser` shows the start of the first file of the root directory and assumes that it is
contiguous; `fuse_fat` lists the same directory and follows the FAT. On a well-formed image with
sectors of at least 512 bytes the preview stays in the first cluster, and both agree.
-/

namespace Fat16

open CLib FatParser

variable {img : Image} {v : Volume}

/-- The entries that the parser shows: files with content. -/
def DirEntry.previewable (e : DirEntry) : Bool := ¬ e.isDirectory ∧ e.fileSize ≠ 0

/-! ## The parser -/

theorem printFat_run (n : Nat) (s : Stdio) :
    ∃ fat s', (printFat n).run (stdio img) s = some (fat, s') := by
  induction n generalizing s with
  | zero => exact ⟨[], s, rfl⟩
  | succ n ih =>
    rw [printFat, Prog.run_bind_of_eq (run_fread img s 2 1)]
    split
    · exact ⟨_, _, rfl⟩
    · obtain ⟨fat, s', hfat⟩ := ih { s with pos := s.pos + (img.read s.pos (2 * 1)).length }
      exact ⟨_, s', by rw [Prog.run_bind_of_eq hfat]; rfl⟩

theorem printEntries_run (n : Nat) (s : Stdio) :
    ∃ lines s', (printEntries n).run (stdio img) s = some (lines, s') := by
  induction n generalizing s with
  | zero => exact ⟨[], s, rfl⟩
  | succ n ih =>
    rw [printEntries]
    by_cases hend : img.size < s.pos + sizeofDirEntry
    · obtain ⟨pos, hread⟩ := freadEntry_run_end img hend
      rw [Prog.run_bind_of_eq hread]
      exact ⟨_, _, rfl⟩
    · obtain ⟨lines, s', hlines⟩ := ih { s with pos := s.pos + sizeofDirEntry }
      rw [Prog.run_bind_of_eq (freadEntry_run img hend)]
      simp only
      split
      · exact ⟨_, _, rfl⟩
      · split
        · exact ⟨lines, s', hlines⟩
        · split
          · exact ⟨lines, s', hlines⟩
          · exact ⟨_, s', by rw [Prog.run_bind_of_eq hlines]; rfl⟩

/-- The attribute test of the parser: neither a directory nor a volume label. -/
theorem dir_or_volume_iff (e : DirEntry) :
    e.attr &&& (attrDirectory ||| attrVolumeId) ≠ 0 ↔ e.isDirectory ∨ e.isVolumeId := by
  have hor : e.attr &&& (attrDirectory ||| attrVolumeId) =
      (e.attr &&& attrDirectory) ||| (e.attr &&& attrVolumeId) :=
    UInt8.toBitVec_inj.mp BitVec.and_or_distrib_left
  rw [hor, ne_eq, UInt8.or_eq_zero_iff, not_and_or]
  rfl

/-- A long-name slot has the attribute of a volume label. -/
theorem isVolumeId_of_longName {e : DirEntry} (h : e.attr = attrLongName) : e.isVolumeId := by
  rw [DirEntry.isVolumeId, h]
  decide

/-- The parser passes over what the driver skips. -/
theorem dir_or_volume_of_skipped {e : DirEntry} (hs : e.skipped) (hdel : ¬ e.isDeleted) :
    e.attr &&& (attrDirectory ||| attrVolumeId) ≠ 0 := by
  refine (dir_or_volume_iff e).mpr (Or.inr ?_)
  rcases hs with hd | hl | hv
  · exact absurd hd hdel
  · exact isVolumeId_of_longName hl
  · exact hv

/-- The parser shows the first live entry that is a file with content. -/
theorem findFile_run (bpb : Bpb) (ds : UInt32) (n : Nat) (s : Stdio) :
    ∃ s', (findFile bpb ds n).run (stdio img) s =
      Prog.run (stdio img)
        (match (liveEntries img s.pos n).find? DirEntry.previewable with
        | none => return none
        | some e => return some (← readPreview bpb ds e)) s' := by
  induction n generalizing s with
  | zero => exact ⟨s, rfl⟩
  | succ n ih =>
    rw [findFile, liveEntries]
    by_cases hend : img.size < s.pos + sizeofDirEntry
    · obtain ⟨pos, hread⟩ := freadEntry_run_end img hend
      rw [if_pos hend, Prog.run_bind_of_eq hread]
      exact ⟨_, rfl⟩
    · obtain ⟨s', ih⟩ := ih { s with pos := s.pos + sizeofDirEntry }
      rw [if_neg hend, Prog.run_bind_of_eq (freadEntry_run img hend)]
      simp only
      split
      · exact ⟨_, rfl⟩
      · by_cases hs : (entryAt img s.pos).skipped
        · rw [if_pos hs]
          split
          · exact ⟨s', ih⟩
          · next hdel =>
            rw [if_pos (dir_or_volume_of_skipped hs hdel)]
            exact ⟨s', ih⟩
        · rw [if_neg hs, if_neg (fun h => hs (Or.inl h)), List.find?_cons]
          have hvol : ¬ (entryAt img s.pos).isVolumeId := fun h => hs (Or.inr (Or.inr h))
          by_cases hdir : (entryAt img s.pos).isDirectory
          · have hp : (entryAt img s.pos).previewable = false := by
              simp [DirEntry.previewable, hdir]
            rw [if_pos ((dir_or_volume_iff _).mpr (Or.inl hdir)), hp]
            exact ⟨s', ih⟩
          · rw [if_neg (fun h => ((dir_or_volume_iff _).mp h).elim hdir hvol)]
            by_cases hsize : (entryAt img s.pos).fileSize = 0
            · have hp : (entryAt img s.pos).previewable = false := by
                simp [DirEntry.previewable, hsize]
              rw [if_pos hsize, hp]
              exact ⟨s', ih⟩
            · have hp : (entryAt img s.pos).previewable = true := by
                simp [DirEntry.previewable, hdir, hsize]
              rw [if_neg hsize, hp]
              exact ⟨_, rfl⟩

/-- The bytes of a preview. -/
def previewSize (e : DirEntry) : Nat := min e.fileSize.toNat 512

theorem min_of_fileSize_lt (e : DirEntry) :
    (if e.fileSize < 512 then e.fileSize.toNat else 512) = previewSize e := by
  rw [previewSize]
  split
  · next h =>
    rw [UInt32.lt_iff_toNat_lt] at h
    exact (Nat.min_eq_left (Nat.le_of_lt h)).symm
  · next h =>
    rw [UInt32.lt_iff_toNat_lt, Nat.not_lt] at h
    exact (Nat.min_eq_right h).symm

theorem WellFormed.bytesPerSector_le (h : WellFormed img v) :
    (bpbOf img).bytesPerSector.toNat ≤ (bpbOf img).clusterBytes :=
  Nat.le_of_dvd h.cluster.1 (Nat.dvd_mul_left _ _)

/-- With sectors of at least 512 bytes, a preview stays in its cluster. -/
theorem preview_fits (h : WellFormed img v) (hb : 512 ≤ (bpbOf img).bytesPerSector.toNat)
    {e : DirEntry} (hc : (bpbOf img).IsCluster e.firstCluster) :
    previewSize e ≤ (bpbOf img).clusterBytes ∧
      (clusterToOffset v e.firstCluster).toNat + previewSize e ≤ img.size := by
  have hsize : previewSize e ≤ 512 := Nat.min_le_right _ _
  have hle := h.bytesPerSector_le
  have hfit := h.cluster_fits hc
  have himg := h.image.1
  rw [h.clusterToOffset_exact hc]
  omega

theorem WellFormed.cluster_distance_lt (h : WellFormed img v) {c : UInt16}
    (hc : (bpbOf img).IsCluster c) : (c.toNat - 2) * (bpbOf img).clusterBytes < 2 ^ 31 := by
  have hcount : c.toNat - 2 ≤ 65523 := by
    have := hc.2
    have := h.clusters.2
    omega
  have hmul := Nat.mul_le_mul hcount h.cluster.2
  omega

theorem cluster_products (h : WellFormed img v) {c : UInt16} (hc : (bpbOf img).IsCluster c) :
    intArith ((c.toNat - 2 : Int) * (bpbOf img).sectorsPerCluster.toNat) =
      some (((c.toNat - 2) * (bpbOf img).sectorsPerCluster.toNat : Nat) : Int) ∧
    intArith ((((c.toNat - 2) * (bpbOf img).sectorsPerCluster.toNat : Nat) : Int) *
        (bpbOf img).bytesPerSector.toNat) =
      some (((c.toNat - 2) * (bpbOf img).clusterBytes : Nat) : Int) := by
  have hsub : (c.toNat - 2 : Int) = ((c.toNat - 2 : Nat) : Int) := by
    have := hc.1
    omega
  have hlt := h.cluster_distance_lt hc
  have hle : (c.toNat - 2) * (bpbOf img).sectorsPerCluster.toNat ≤
      (c.toNat - 2) * (bpbOf img).clusterBytes :=
    Nat.mul_le_mul_left _ (Nat.le_mul_of_pos_right _ h.sector.1)
  have hassoc : (c.toNat - 2) * (bpbOf img).sectorsPerCluster.toNat *
      (bpbOf img).bytesPerSector.toNat = (c.toNat - 2) * (bpbOf img).clusterBytes :=
    Nat.mul_assoc _ _ _
  rw [hsub, ← Int.natCast_mul, ← Int.natCast_mul, hassoc]
  exact ⟨intArith_natCast (Nat.lt_of_le_of_lt hle hlt), intArith_natCast hlt⟩

/-- The parser's address is that of the driver. -/
theorem clusterToOffset_eq (h : WellFormed img v) {c : UInt16} (hc : (bpbOf img).IsCluster c) :
    v.dataStart + UInt32.ofInt (((c.toNat - 2) * (bpbOf img).clusterBytes : Nat) : Int) =
      clusterToOffset v c := by
  have hfit := h.cluster_fits hc
  have himg := h.image.2
  have hexact := h.clusterToOffset_exact hc
  rw [← UInt32.toNat_inj, UInt32.toNat_add, h.layout_exact.2.2.1,
    toNat_ofInt_natCast (by omega), hexact, Nat.mod_eq_of_lt (by omega)]

/-- What the parser reads when its products do not overflow. -/
theorem readPreview_read {bpb : Bpb} {ds : UInt32} {e : DirEntry} {sectors bytes : Int}
    (hsectors : intArith ((e.firstCluster.toNat - 2 : Int) * bpb.sectorsPerCluster.toNat) =
      some sectors)
    (hbytes : intArith (sectors * bpb.bytesPerSector.toNat) = some bytes) (s : Stdio) :
    ∃ s', (readPreview bpb ds e).run (stdio img) s =
      some (⟨e, formatName e, img.read (ds + UInt32.ofInt bytes).toNat (previewSize e)⟩, s') := by
  rw [readPreview, hsectors]
  simp only
  rw [hbytes]
  simp only
  rw [Prog.run_bind_of_eq (run_fseek img s _), min_of_fileSize_lt,
    Prog.run_bind_of_eq (run_fread img _ 1 (previewSize e)), Nat.one_mul, Prog.run_pure]
  exact ⟨_, rfl⟩

/-- The content that the parser shows is the start of the first cluster. -/
theorem readPreview_run (h : WellFormed img v) (hb : 512 ≤ (bpbOf img).bytesPerSector.toNat)
    {e : DirEntry} (hc : (bpbOf img).IsCluster e.firstCluster) (s : Stdio) :
    ∃ s', (readPreview (bpbOf img) v.dataStart e).run (stdio img) s =
      some (⟨e, formatName e,
        img.slice (clusterToOffset v e.firstCluster).toNat (previewSize e)⟩, s') := by
  obtain ⟨hsectors, hbytes⟩ := cluster_products h hc
  rw [← img.read_of_le (preview_fits h hb hc).2, ← clusterToOffset_eq h hc]
  exact readPreview_read hsectors hbytes s

/-! ## The driver -/

theorem if_gt_eq_min (a b : Nat) : (if a > b then b else a) = min a b := by
  split
  · exact (Nat.min_eq_right (by omega)).symm
  · exact (Nat.min_eq_left (by omega)).symm

theorem fatNextCluster_run (img : Image) (v : Volume) (c : UInt16) (s : Stdio) :
    ∃ next s', (fatNextCluster v c).run (stdio img) s = some (next, s') := by
  rw [fatNextCluster, Prog.run_bind_of_eq (run_fseek img _ _),
    Prog.run_bind_of_eq (run_fread img _ 2 1)]
  split
  · exact ⟨_, _, rfl⟩
  · exact ⟨_, _, rfl⟩

theorem readChain_round (img : Image) (v : Volume) (fuel intra : Nat) {size : Nat} {c : UInt16}
    {buf : List UInt8} (hguard : buf.length < size ∧ c ≥ 2 ∧ c < 0xFFF8) (s : Stdio) :
    ∃ next s', (readChain v size (fuel + 1) c intra buf).run (stdio img) s =
      (readChain v size fuel next 0 (buf ++
        img.read (uint32 ((clusterToOffset v c).toNat + intra))
          (min (sizeT (v.clusterSize.toNat - intra)) (size - buf.length)))).run (stdio img) s' := by
  rw [readChain, if_pos hguard]
  simp only [if_gt_eq_min]
  rw [Prog.run_bind_of_eq (run_fseek img s _), Prog.run_bind_of_eq (run_fread img _ 1 _)]
  obtain ⟨next, s', hnext⟩ := fatNextCluster_run img v c _
  rw [Prog.run_bind_of_eq hnext, Nat.one_mul]
  exact ⟨next, s', rfl⟩

/-- A read that the first cluster satisfies. -/
theorem readChain_run_first (h : WellFormed img v) {c : UInt16} (hc : (bpbOf img).IsCluster c)
    {size : Nat} (hpos : 0 < size) (hsize : size ≤ (bpbOf img).clusterBytes) (fuel : Nat)
    (s : Stdio) :
    ∃ s', (readChain v size (fuel + 2) c 0 []).run (stdio img) s =
      some (img.slice (clusterToOffset v c).toNat size, s') := by
  have hguard : ([] : List UInt8).length < size ∧ c ≥ 2 ∧ c < 0xFFF8 :=
    ⟨hpos, UInt16.le_iff_toNat_le.mpr hc.1, h.cluster_lt hc⟩
  have hcoff : uint32 ((clusterToOffset v c).toNat + (0 : Nat)) = (clusterToOffset v c).toNat := by
    rw [Int.natCast_zero, Int.add_zero]
    exact uint32_natCast (UInt32.toNat_lt _)
  have hto : sizeT (v.clusterSize.toNat - (0 : Nat)) = (bpbOf img).clusterBytes := by
    rw [Int.natCast_zero, Int.sub_zero, h.layout_exact.2.2.2]
    exact sizeT_natCast (Nat.lt_of_le_of_lt h.cluster.2 (by decide))
  have hread : img.read (clusterToOffset v c).toNat size =
      img.slice (clusterToOffset v c).toNat size := by
    refine img.read_of_le ?_
    have hfit := h.cluster_fits hc
    have himg := h.image.1
    rw [h.clusterToOffset_exact hc]
    omega
  obtain ⟨next, s', hround⟩ := readChain_round img v (fuel + 1) 0 hguard s
  rw [hcoff, hto, List.length_nil, Nat.sub_zero, Nat.min_eq_right hsize, hread, List.nil_append]
    at hround
  refine ⟨s', ?_⟩
  rw [hround, readChain, if_neg]
  · rfl
  · rw [Image.length_slice]
    exact fun hlt => lt_irrefl _ hlt.1

/-- `fusefat_read` of the first 512 bytes of a file. -/
theorem fusefatRead_run_preview (h : WellFormed img v)
    (hb : 512 ≤ (bpbOf img).bytesPerSector.toNat) {path : CStr} {e : DirEntry} {fuel : Nat}
    (hp : path.bytes ≠ []) (hf : pathcopyLen ≤ fuel) (he : lookup img v path = .ok e)
    (hprev : e.previewable) (hc : (bpbOf img).IsCluster e.firstCluster) (s : Stdio) :
    ∃ s', (fusefatRead v fuel path 512 0).run (stdio img) s =
      some (((previewSize e : Int),
        img.slice (clusterToOffset v e.firstCluster).toNat (previewSize e)), s') := by
  obtain ⟨hdir, hsize⟩ : ¬ e.isDirectory ∧ e.fileSize ≠ 0 := of_decide_eq_true hprev
  have hsize : 0 < e.fileSize.toNat := by
    rw [Nat.pos_iff_ne_zero]
    exact fun h0 => hsize (UInt32.toNat_inj.mp h0)
  have hcluster : v.clusterSize ≠ 0 := by
    intro h0
    have hexact := h.layout_exact.2.2.2
    rw [h0] at hexact
    exact absurd h.cluster.1 (by rw [← hexact]; decide)
  have hclamp : (if sizeT ((0 : Int) + (512 : Nat)) > e.fileSize.toNat then
      sizeT ((e.fileSize.toNat : Int) - 0) else 512) = previewSize e := by
    have h512 : sizeT ((0 : Int) + (512 : Nat)) = 512 := by decide
    have hfile : sizeT ((e.fileSize.toNat : Int) - 0) = e.fileSize.toNat := by
      rw [Int.sub_zero]
      exact sizeT_natCast (Nat.lt_trans (UInt32.toNat_lt _) (by decide))
    rw [h512, hfile, previewSize, Nat.min_comm]
    exact if_gt_eq_min 512 e.fileSize.toNat
  obtain ⟨s₁, hfind⟩ := findEntry_run img v s hp ((length_components_le path).trans hf)
  obtain ⟨fuel, rfl⟩ := Nat.exists_eq_add_of_le' (Nat.le_trans (by decide : 2 ≤ pathcopyLen) hf)
  have hpos : 0 < previewSize e := Nat.lt_min.mpr ⟨hsize, by decide⟩
  obtain ⟨s₂, hread⟩ := readChain_run_first h hc hpos (preview_fits h hb hc).1 fuel s₁
  refine ⟨s₂, ?_⟩
  rw [fusefatRead, Prog.run_bind_of_eq hfind, he]
  simp only
  rw [if_neg hdir, if_neg (by omega), if_neg hcluster, hclamp]
  have hzero : sizeT 0 = 0 := by decide
  have hret : cInt ((previewSize e : Nat) : Int) = previewSize e := by
    have hle : previewSize e ≤ 512 := Nat.min_le_right _ _
    exact cInt_of_lt (by omega) (by omega)
  rw [Int.zero_tdiv, Int.zero_tmod, hzero, skipClusters, Prog.run_bind_of_eq (Prog.run_pure _ s₁),
    Prog.run_bind_of_eq hread, Prog.run_pure, Image.length_slice, hret]

/-! ## Both -/

/-- The parser reads the BPB and the layout that the driver mounts. -/
theorem main_run (h : WellFormed img v) (save : CStr) :
    ∃ (fat : List UInt16) (rootDir : List Line) (s : Stdio),
      s.pos = v.rootDirStart.toNat ∧
      FatParser.main.run (stdio img) ⟨0, save⟩ = Prog.run (stdio img) (do
        let preview ← findFile (bpbOf img) v.dataStart v.rootEntryCount.toNat
        return .ok ⟨v.fatStart, v.rootDirStart, v.dataStart, fat, rootDir, preview⟩) s := by
  have hbpb : Bpb.decode (img.slice 0 sizeofBpb) = bpbOf img := rfl
  rw [FatParser.main, Prog.run_bind_of_eq (run_fread img _ sizeofBpb 1), h.read_bpb,
    Image.length_slice, if_neg (lt_irrefl _), hbpb]
  simp only
  rw [h.mounts.2, ← h.rootEntryCount_eq]
  simp only
  obtain ⟨fat, s₁, hfat⟩ := @printFat_run img 32 ⟨v.fatStart.toNat, save⟩
  obtain ⟨rootDir, s₂, hdir⟩ := @printEntries_run img v.rootEntryCount.toNat
    { s₁ with pos := v.rootDirStart.toNat }
  refine ⟨fat, rootDir, { s₂ with pos := v.rootDirStart.toNat }, rfl, ?_⟩
  rw [Prog.run_bind_of_eq (run_fseek img _ _), Prog.run_bind_of_eq hfat, printDirectory,
    Prog.run_bind_of_eq ((Prog.run_bind_of_eq (run_fseek img _ _)).trans hdir),
    Prog.run_bind_of_eq (run_fseek img _ _)]

/-- The entry that the parser shows is one of a file that the driver finds and reads. -/
theorem previewed_file (h : WellFormed img v) {e : DirEntry}
    (he : (Dir.root.entries img v).find? DirEntry.previewable = some e) :
    e ∈ Dir.root.entries img v ∧ e.previewable ∧ (bpbOf img).IsCluster e.firstCluster ∧
      lookup img v (child rootPath (formatName e)) = .ok e := by
  have hmem := List.mem_of_find?_eq_some he
  have hprev := List.find?_some he
  obtain ⟨hdir, hsize⟩ : ¬ e.isDirectory ∧ e.fileSize ≠ 0 := of_decide_eq_true hprev
  have hc := h.names [] .root .root e hmem
  have hshort : strlen (child (pathOf []) (formatName e)) ≤ pathcopyLen + 1 := by
    have hname := strlen_formatName_le e
    rw [strlen, pathOf, List.foldl_nil, child, if_pos rfl, CStr.append, List.length_append]
    exact Nat.le_trans (Nat.add_le_add_left hname 1) (by decide)
  have hfind := find?_named_of_mem (h.distinct [] .root .root) hmem
  rw [← h.root_entries] at hfind
  refine ⟨hmem, hprev, (h.chains [] .root .root e hmem (Or.inr ⟨hdir, hsize⟩)).1, ?_⟩
  have hlookup := (located_root : Located img v [] .root).lookup_child hc hshort
  rw [show pathOf [] = rootPath from rfl] at hlookup
  rw [hlookup]
  exact resolve_single_of_find? hfind

/-- On a well-formed image with sectors of at least 512 bytes, the parser shows the first file with
content in the root directory; the driver lists it under the same name, and its read of the first
512 bytes of that file gives what the parser shows. -/
theorem preview_eq_read (h : WellFormed img v) (hb : 512 ≤ (bpbOf img).bytesPerSector.toNat)
    {fuel : Nat} (hf : pathcopyLen ≤ fuel) (save : CStr) :
    ∃ (report : Report) (s' : Stdio),
      FatParser.main.run (stdio img) ⟨0, save⟩ = some (.ok report, s') ∧
      report.preview.map Preview.entry =
        (Dir.root.entries img v).find? (fun e => ¬ e.isDirectory ∧ e.fileSize ≠ 0) ∧
      ∀ pv, report.preview = some pv → ∀ s,
        (∃ names s₁, (fusefatReaddir v fuel rootPath).run (stdio img) s =
          some ((0, dot :: dotdot :: names), s₁) ∧ pv.fname ∈ names) ∧
        (∃ s₂, (findEntry v fuel (child rootPath pv.fname)).run (stdio img) s =
          some (.ok pv.entry, s₂)) ∧
        ∃ s₃, (fusefatRead v fuel (child rootPath pv.fname) 512 0).run (stdio img) s =
          some (((pv.content.length : Int), pv.content), s₃) := by
  obtain ⟨fat, rootDir, s, hpos, hmain⟩ := main_run h save
  obtain ⟨s₁, hfile⟩ := @findFile_run img (bpbOf img) v.dataStart v.rootEntryCount.toNat s
  have hentries : liveEntries img s.pos v.rootEntryCount.toNat = Dir.root.entries img v := by
    rw [hpos]
    exact h.root_entries
  rw [hentries] at hfile
  rcases he : (Dir.root.entries img v).find? DirEntry.previewable with _ | e
  · rw [he] at hfile
    refine ⟨⟨v.fatStart, v.rootDirStart, v.dataStart, fat, rootDir, none⟩, s₁, ?_, he.symm, ?_⟩
    · rw [hmain, Prog.run_bind_of_eq hfile]
      rfl
    · intro pv hpv
      cases hpv
  · obtain ⟨hmem, hprev, hc, hlookup⟩ := previewed_file h he
    obtain ⟨s₂, hread⟩ := readPreview_run h hb hc s₁
    rw [he] at hfile
    simp only at hfile
    rw [Prog.run_bind_of_eq hread, Prog.run_pure] at hfile
    refine ⟨⟨v.fatStart, v.rootDirStart, v.dataStart, fat, rootDir, some ⟨e, formatName e,
      img.slice (clusterToOffset v e.firstCluster).toNat (previewSize e)⟩⟩, s₂, ?_, ?_, ?_⟩
    · rw [hmain, Prog.run_bind_of_eq hfile]
      rfl
    · exact he.symm
    · intro pv hpv s
      obtain rfl := Option.some.inj hpv
      have hne : (child rootPath (formatName e)).bytes ≠ [] :=
        ne_nil_of_head? (head?_child (c := formatName e) rfl)
      obtain ⟨s₃, hlist⟩ := fusefatReaddir_run img v s (by decide) hf (if_pos rfl)
      obtain ⟨s₄, hfind⟩ := findEntry_run img v s hne ((length_components_le _).trans hf)
      obtain ⟨s₅, hrun⟩ := fusefatRead_run_preview h hb hne hf hlookup hprev hc s
      rw [hlookup] at hfind
      refine ⟨⟨_, s₃, hlist, ?_⟩, ⟨s₄, hfind⟩, s₅, ?_⟩
      · rw [listedExtent, if_pos rfl, h.root_entries]
        exact List.mem_map_of_mem hmem
      · rw [hrun, Image.length_slice]

/-- The file `F` of `twoClusters`. -/
theorem preview_eq_read_twoClusters :
    ∃ (report : Report) (s' : Stdio),
      FatParser.main.run (stdio twoClusters) ⟨0, rootPath⟩ = some (.ok report, s') ∧
      report.preview.map Preview.entry = (Dir.root.entries twoClusters twoClustersVolume).find?
        (fun e => ¬ e.isDirectory ∧ e.fileSize ≠ 0) ∧
      ∀ pv, report.preview = some pv → ∀ s,
        (∃ names s₁, (fusefatReaddir twoClustersVolume 511 rootPath).run (stdio twoClusters) s =
          some ((0, dot :: dotdot :: names), s₁) ∧ pv.fname ∈ names) ∧
        (∃ s₂, (findEntry twoClustersVolume 511 (child rootPath pv.fname)).run
          (stdio twoClusters) s = some (.ok pv.entry, s₂)) ∧
        ∃ s₃, (fusefatRead twoClustersVolume 511 (child rootPath pv.fname) 512 0).run
          (stdio twoClusters) s = some (((pv.content.length : Int), pv.content), s₃) :=
  preview_eq_read twoClusters_wellFormed (by decide +kernel) le_rfl rootPath

end Fat16
