import LinuxHandson.Fat16.Tree

/-!
# The layout of a well-formed image

On a well-formed image no address wraps around: the regions start where the BPB says, every cluster
of the data region lies in the image, and a scan of an extent visits all of its slots.
-/

namespace Fat16

open CLib

variable {img : Image} {v : Volume}

theorem toNat_ofInt_natCast {n : Nat} (h : n < 2 ^ 32) : (UInt32.ofInt (n : Int)).toNat = n := by
  rw [UInt32.ofInt, UInt32.toNat_ofNat']
  omega

/-- The fields of the layout, before any of them is known not to wrap. -/
theorem layout_eq {b : Bpb} (h : layout b = some v) :
    v.fatStart = UInt32.ofInt (b.reservedSectors.toNat * b.bytesPerSector.toNat : Nat) ∧
    v.rootDirStart = v.fatStart +
      UInt32.ofInt (b.numFats.toNat * b.fatSize16.toNat * b.bytesPerSector.toNat : Nat) ∧
    v.dataStart = v.rootDirStart + UInt32.ofInt (b.rootEntryCount.toNat * 32 : Nat) ∧
    v.clusterSize = UInt32.ofInt (b.clusterBytes : Nat) ∧
    v.rootEntryCount = b.rootEntryCount := by
  unfold layout at h
  simp only [Option.bind_eq_bind, Option.bind_eq_some_iff] at h
  obtain ⟨reserved, h1, fatSectors, h2, fats, h3, rootDirSize, h4, clusterSize, h5, hv⟩ := h
  obtain rfl := eq_of_intArith h1
  obtain rfl := eq_of_intArith h2
  obtain rfl := eq_of_intArith h3
  obtain rfl := eq_of_intArith h4
  obtain rfl := eq_of_intArith h5
  obtain rfl := Option.some.inj hv
  simp only [Bpb.clusterBytes, Int.natCast_mul, Int.cast_ofNat_Int, and_self]

theorem clusterBytes_lt (b : Bpb) : b.clusterBytes < 2 ^ 32 :=
  Nat.lt_trans (Nat.mul_lt_mul'' b.sectorsPerCluster.toNat_lt b.bytesPerSector.toNat_lt) (by decide)

/-- Where the regions end within 32 bits, the addresses of the layout are the exact ones. -/
theorem layout_sums {b : Bpb} (h : layout b = some v) (hsum : b.dataOffset < 2 ^ 32) :
    v.fatStart.toNat = b.reservedSectors.toNat * b.bytesPerSector.toNat ∧
    v.rootDirStart.toNat + b.rootEntryCount.toNat * 32 = b.dataOffset ∧
    v.dataStart.toNat = b.dataOffset ∧ v.clusterSize.toNat = b.clusterBytes := by
  obtain ⟨hfat, hroot, hdata, hsize, -⟩ := layout_eq h
  unfold Bpb.dataOffset at *
  have hfat' : v.fatStart.toNat = b.reservedSectors.toNat * b.bytesPerSector.toNat := by
    rw [hfat, toNat_ofInt_natCast (by omega)]
  have hroot' : v.rootDirStart.toNat = v.fatStart.toNat +
      b.numFats.toNat * b.fatSize16.toNat * b.bytesPerSector.toNat := by
    rw [hroot, UInt32.toNat_add, toNat_ofInt_natCast (by omega), Nat.mod_eq_of_lt (by omega)]
  have hdata' : v.dataStart.toNat = v.rootDirStart.toNat + b.rootEntryCount.toNat * 32 := by
    rw [hdata, UInt32.toNat_add, toNat_ofInt_natCast (by omega), Nat.mod_eq_of_lt (by omega)]
  refine ⟨hfat', by omega, by omega, ?_⟩
  rw [hsize, toNat_ofInt_natCast (clusterBytes_lt b)]

/-- The addresses of the layout of a well-formed image are the exact ones. -/
theorem WellFormed.layout_exact (h : WellFormed img v) :
    v.fatStart.toNat =
      (bpbOf img).reservedSectors.toNat * (bpbOf img).bytesPerSector.toNat ∧
    v.rootDirStart.toNat + (bpbOf img).rootEntryCount.toNat * 32 = (bpbOf img).dataOffset ∧
    v.dataStart.toNat = (bpbOf img).dataOffset ∧
    v.clusterSize.toNat = (bpbOf img).clusterBytes :=
  layout_sums h.mounts.2 (Nat.lt_of_le_of_lt h.regions h.image.2)

/-- `cluster_to_offset` does not wrap around for a cluster that starts within 32 bits. -/
theorem clusterToOffset_toNat {b : Bpb} {c : UInt16} (hdata : v.dataStart.toNat = b.dataOffset)
    (hsize : v.clusterSize.toNat = b.clusterBytes) (hc : 2 ≤ c.toNat)
    (hlt : b.dataOffset + (c.toNat - 2) * b.clusterBytes < 2 ^ 32) :
    (clusterToOffset v c).toNat = b.dataOffset + (c.toNat - 2) * b.clusterBytes := by
  have hsub : (c.toUInt32 - 2).toNat = c.toNat - 2 := by
    rw [UInt32.toNat_sub_of_le]
    · simp
    · rw [UInt32.le_iff_toNat_le]
      simpa using hc
  have hmul : (c.toNat - 2) * b.clusterBytes < 2 ^ 32 := Nat.lt_of_le_of_lt (Nat.le_add_left _ _) hlt
  rw [clusterToOffset, UInt32.toNat_add, UInt32.toNat_mul, hsub, hdata, hsize,
    Nat.mod_eq_of_lt hmul, Nat.mod_eq_of_lt hlt]

theorem WellFormed.rootEntryCount_eq (h : WellFormed img v) :
    v.rootEntryCount = (bpbOf img).rootEntryCount :=
  (layout_eq h.mounts.2).2.2.2.2

/-- The number of a cluster does not end a chain. -/
theorem WellFormed.cluster_lt (h : WellFormed img v) {c : UInt16} (hc : (bpbOf img).IsCluster c) :
    c < 0xFFF8 := by
  have h1 := hc.2
  have h2 := h.clusters.2
  rw [UInt16.lt_iff_toNat_lt]
  exact lt_of_lt_of_le h1 (by change _ ≤ 65528; omega)

theorem WellFormed.clusters_fit (h : WellFormed img v) :
    (bpbOf img).dataOffset + (bpbOf img).clusterCount * (bpbOf img).clusterBytes ≤
      (bpbOf img).totalSectors * (bpbOf img).bytesPerSector.toNat := by
  have hreg := h.regions
  have hdiv := Nat.div_mul_le_self ((bpbOf img).totalSectors * (bpbOf img).bytesPerSector.toNat -
    (bpbOf img).dataOffset) (bpbOf img).clusterBytes
  unfold Bpb.clusterCount
  omega

theorem WellFormed.cluster_fits (h : WellFormed img v) {c : UInt16} (hc : (bpbOf img).IsCluster c) :
    (bpbOf img).dataOffset + (c.toNat - 2) * (bpbOf img).clusterBytes +
      (bpbOf img).clusterBytes ≤
      (bpbOf img).totalSectors * (bpbOf img).bytesPerSector.toNat := by
  have hfit := h.clusters_fit
  have hle : (c.toNat - 2 + 1) * (bpbOf img).clusterBytes ≤
      (bpbOf img).clusterCount * (bpbOf img).clusterBytes :=
    Nat.mul_le_mul_right _ (by have := hc.1; have := hc.2; omega)
  rw [Nat.add_mul, Nat.one_mul] at hle
  omega

/-- `cluster_to_offset` does not wrap around. -/
theorem WellFormed.clusterToOffset_exact (h : WellFormed img v) {c : UInt16}
    (hc : (bpbOf img).IsCluster c) :
    (clusterToOffset v c).toNat =
      (bpbOf img).dataOffset + (c.toNat - 2) * (bpbOf img).clusterBytes := by
  obtain ⟨-, -, hdata, hsize⟩ := h.layout_exact
  have hfit := h.cluster_fits hc
  have himg := h.image.2
  exact clusterToOffset_toNat hdata hsize hc.1 (by omega)

theorem WellFormed.clusterSlots (h : WellFormed img v) :
    sizeofDirEntry * (v.clusterSize.toNat / sizeofDirEntry) = (bpbOf img).clusterBytes := by
  rw [h.layout_exact.2.2.2]
  exact Nat.mul_div_cancel' (Nat.dvd_trans h.sector.2 (Nat.dvd_mul_left _ _))

/-! ## Scans of extents -/

/-- The extent lies in the image. -/
def Extent.InImage (img : Image) (x : Extent) : Prop :=
  x.start.toNat + sizeofDirEntry * x.slots ≤ img.size

theorem WellFormed.rootExtent_inImage (h : WellFormed img v) : v.rootExtent.InImage img := by
  have hroot := h.layout_exact.2.1
  have hreg := h.regions
  have himg := h.image.1
  have hcount := h.rootEntryCount_eq
  simp only [Extent.InImage, Volume.rootExtent, sizeofDirEntry, hcount]
  omega

theorem WellFormed.clusterExtent_inImage (h : WellFormed img v) {c : UInt16}
    (hc : (bpbOf img).IsCluster c) : (v.clusterExtent c).InImage img := by
  have hfit := h.cluster_fits hc
  have himg := h.image.1
  simp only [Extent.InImage, Volume.clusterExtent]
  rw [h.clusterSlots, h.clusterToOffset_exact hc]
  omega

theorem live_cons (e : DirEntry) (l : List DirEntry) :
    live (e :: l) = if e.isEnd then [] else if e.skipped then live l else e :: live l := by
  by_cases he : e.isEnd
  · simp [live, he]
  · by_cases hs : e.skipped <;> simp [live, he, hs]

/-- A scan that stays in the image visits the live entries of its slots. -/
theorem liveEntries_eq_live (img : Image) (n : Nat) :
    ∀ off, off + sizeofDirEntry * n ≤ img.size →
      liveEntries img off n =
        live ((List.range n).map fun i => entryAt img (off + sizeofDirEntry * i)) := by
  induction n with
  | zero => intro off _; rfl
  | succ n ih =>
    intro off hoff
    have hnext : (fun i => entryAt img (off + sizeofDirEntry * (i + 1))) =
        fun i => entryAt img (off + sizeofDirEntry + sizeofDirEntry * i) := by
      funext i
      exact congrArg (entryAt img) (by rw [Nat.mul_add]; omega)
    rw [Nat.mul_add] at hoff
    rw [liveEntries, if_neg (by omega), List.range_succ_eq_map, List.map_cons, List.map_map,
      live_cons, Function.comp_def]
    simp only [Nat.succ_eq_add_one, Nat.mul_zero, Nat.add_zero, hnext]
    rw [ih (off + sizeofDirEntry) (by omega)]

theorem Extent.InImage.entries_eq {x : Extent} (h : x.InImage img) :
    x.entries img = live (x.slotEntries img) := liveEntries_eq_live img x.slots x.start.toNat h

/-- A scan of the root directory visits all of its live entries. -/
theorem WellFormed.root_entries (h : WellFormed img v) :
    v.rootExtent.entries img = Dir.root.entries img v := by
  rw [h.rootExtent_inImage.entries_eq, Dir.entries, Dir.extents, List.flatMap_cons,
    List.flatMap_nil, List.append_nil]

theorem WellFormed.read_bpb (h : WellFormed img v) :
    img.read 0 (sizeofBpb * 1) = img.slice 0 sizeofBpb := by
  have hsize := h.mounts.1
  rw [Nat.mul_one]
  exact img.read_of_le (by omega)

/-- The driver comes up with the layout of the image. -/
theorem WellFormed.mount_run (h : WellFormed img v) (save : CStr) :
    ∃ s', mount.run (stdio img) ⟨0, save⟩ = some (.ok v, s') := by
  have hbpb : Bpb.decode (img.slice 0 sizeofBpb) = bpbOf img := rfl
  rw [mount, Prog.run_bind_of_eq (run_fread img _ sizeofBpb 1), h.read_bpb, Image.length_slice,
    if_neg (Nat.lt_irrefl _), hbpb]
  simp only
  rw [h.mounts.2]
  exact ⟨_, rfl⟩

theorem live_prefix_append (l l' : List DirEntry) : live l <+: live (l ++ l') := by
  induction l with
  | nil => exact List.nil_prefix
  | cons e l ih =>
    rw [List.cons_append, live_cons, live_cons]
    split
    · exact List.prefix_rfl
    · split
      · exact ih
      · exact List.prefix_cons_inj e |>.mpr ih

end Fat16
