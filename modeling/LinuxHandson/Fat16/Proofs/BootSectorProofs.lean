import LinuxHandson.Fat16.Proofs.LayoutProofs

/-!
# The layout of any boot sector

`main` takes the fields of the BPB as they are. What it computes from them is exact, with a cluster
size that can be divided by, for some boot sectors only.
-/

namespace Fat16

open CLib

variable {b : Bpb} {v : Volume}

/-- The layout has the exact values, every cluster number its exact address, and the cluster size is
not zero. -/
structure ExactLayout (b : Bpb) (v : Volume) : Prop where
  fatStart : v.fatStart.toNat = b.reservedSectors.toNat * b.bytesPerSector.toNat
  rootDirStart : v.rootDirStart.toNat = b.reservedSectors.toNat * b.bytesPerSector.toNat +
    b.numFats.toNat * b.fatSize16.toNat * b.bytesPerSector.toNat
  dataStart : v.dataStart.toNat = b.dataOffset
  clusterSize : v.clusterSize.toNat = b.clusterBytes
  offsets : ∀ c : UInt16, 2 ≤ c.toNat → c.toNat ≤ 0xFFF7 →
    (clusterToOffset v c).toNat = b.dataOffset + (c.toNat - 2) * b.clusterBytes
  nonzero : v.clusterSize ≠ 0

/-- The products fit an `int`, the last cluster number has an address of 32 bits, and a cluster holds
a byte. -/
structure Bpb.Sane (b : Bpb) : Prop where
  reserved : b.reservedSectors.toNat * b.bytesPerSector.toNat < 2 ^ 31
  fats : b.numFats.toNat * b.fatSize16.toNat * b.bytesPerSector.toNat < 2 ^ 31
  offsets : b.dataOffset + (0xFFF7 - 2) * b.clusterBytes < 2 ^ 32
  nonzero : 0 < b.clusterBytes

theorem lt_of_intArith {n : Nat} {y : Int} (h : intArith n = some y) : n < 2 ^ 31 := by
  unfold intArith at h
  split at h
  · next hr => exact_mod_cast hr.2
  · cases h

/-- A field of 8 bits times one of 16 fits an `int`. -/
theorem mul_lt_of_fields (x : UInt8) (y : UInt16) : x.toNat * y.toNat < 2 ^ 31 :=
  Nat.lt_trans (Nat.mul_lt_mul'' x.toNat_lt y.toNat_lt) (by decide)

theorem products_lt (h : layout b = some v) :
    b.reservedSectors.toNat * b.bytesPerSector.toNat < 2 ^ 31 ∧
      b.numFats.toNat * b.fatSize16.toNat * b.bytesPerSector.toNat < 2 ^ 31 := by
  unfold layout at h
  simp only [Option.bind_eq_bind, Option.bind_eq_some_iff] at h
  obtain ⟨reserved, h1, fatSectors, h2, fats, h3, -⟩ := h
  obtain rfl := eq_of_intArith h2
  rw [← Int.natCast_mul] at h1
  rw [← Int.natCast_mul, ← Int.natCast_mul] at h3
  exact ⟨lt_of_intArith h1, lt_of_intArith h3⟩

/-- There is a layout where two of the products fit an `int`. The other three always do. -/
theorem layout_isSome_iff (b : Bpb) :
    (∃ v, layout b = some v) ↔ b.reservedSectors.toNat * b.bytesPerSector.toNat < 2 ^ 31 ∧
      b.numFats.toNat * b.fatSize16.toNat * b.bytesPerSector.toNat < 2 ^ 31 := by
  constructor
  · rintro ⟨v, h⟩
    exact products_lt h
  · rintro ⟨h1, h3⟩
    have h2 := mul_lt_of_fields b.numFats b.fatSize16
    have h4 : b.rootEntryCount.toNat * 32 < 2 ^ 31 := by
      have := b.rootEntryCount.toNat_lt
      omega
    have h5 := mul_lt_of_fields b.sectorsPerCluster b.bytesPerSector
    have e1 := intArith_natCast h1
    have e2 := intArith_natCast h2
    have e3 := intArith_natCast h3
    have e4 := intArith_natCast h4
    have e5 := intArith_natCast h5
    rw [Int.natCast_mul] at e1 e2 e3 e4 e5
    rw [Int.natCast_mul] at e3
    unfold layout
    simp only [Option.bind_eq_bind, Option.bind_eq_some_iff]
    exact ⟨_, _, e1, _, e2, _, e3, _, e4, _, e5, rfl⟩

/-- The layout of a boot sector with sane fields is exact. -/
theorem Bpb.Sane.exact (h : b.Sane) (hv : layout b = some v) : ExactLayout b v := by
  have hlast := h.offsets
  obtain ⟨hfat, hroot, hdata, hsize⟩ := layout_sums hv (by omega)
  refine ⟨hfat, ?_, hdata, hsize, ?_, ?_⟩
  · unfold Bpb.dataOffset at hroot
    omega
  · intro c h2 hle
    have hmul : (c.toNat - 2) * b.clusterBytes ≤ (0xFFF7 - 2) * b.clusterBytes :=
      Nat.mul_le_mul_right _ (by omega)
    exact clusterToOffset_toNat hdata hsize h2 (by omega)
  · intro h0
    have hpos := h.nonzero
    rw [h0] at hsize
    exact absurd hsize.symm (Nat.ne_of_gt hpos)

/-- A boot sector with an exact layout has sane fields: the last cluster number bounds the others. -/
theorem ExactLayout.sane (h : ExactLayout b v) (hv : layout b = some v) : b.Sane := by
  obtain ⟨hreserved, hfats⟩ := (layout_isSome_iff b).mp ⟨v, hv⟩
  refine ⟨hreserved, hfats, ?_, ?_⟩
  · have hlast := h.offsets 0xFFF7 (by decide) (by decide)
    have hlt := (clusterToOffset v 0xFFF7).toNat_lt
    rw [hlast] at hlt
    exact hlt
  · have hsize := h.clusterSize
    refine Nat.pos_of_ne_zero fun h0 => h.nonzero ?_
    rw [h0] at hsize
    exact UInt32.toNat_inj.mp hsize

theorem mount_run_eq (img : Image) (save : CStr) (h : sizeofBpb ≤ img.size) :
    mount.run (stdio img) ⟨0, save⟩ =
      (layout (bpbOf img)).map fun v => (Except.ok v, ⟨sizeofBpb, save⟩) := by
  have hread : img.read 0 (sizeofBpb * 1) = img.slice 0 sizeofBpb := img.read_of_le (by omega)
  have hbpb : Bpb.decode (img.slice 0 sizeofBpb) = bpbOf img := rfl
  rw [mount, Prog.run_bind_of_eq (run_fread img _ sizeofBpb 1), hread, Image.length_slice,
    if_neg (Nat.lt_irrefl _), hbpb]
  rcases layout (bpbOf img) with _ | v
  · rfl
  · simp

/-- For every image whose BPB can be read: the driver comes up with the exact layout, exact addresses
of all cluster numbers and a cluster size that is not zero if and only if the fields of the BPB are
sane. -/
theorem mount_exact_iff (img : Image) (save : CStr) (h : sizeofBpb ≤ img.size) :
    (∃ v s, mount.run (stdio img) ⟨0, save⟩ = some (.ok v, s) ∧ ExactLayout (bpbOf img) v) ↔
      (bpbOf img).Sane := by
  rw [mount_run_eq img save h]
  constructor
  · rintro ⟨v, s, hrun, hexact⟩
    obtain ⟨w, hw, heq⟩ := Option.map_eq_some_iff.mp hrun
    obtain ⟨hwv, -⟩ := Prod.mk.inj heq
    obtain rfl := Except.ok.inj hwv
    exact hexact.sane hw
  · intro hsane
    obtain ⟨v, hv⟩ := (layout_isSome_iff _).mpr ⟨hsane.reserved, hsane.fats⟩
    exact ⟨v, ⟨sizeofBpb, save⟩, by rw [hv]; rfl, hsane.exact hv⟩

theorem mount_exact_twoClusters :
    ∃ v s, mount.run (stdio twoClusters) ⟨0, rootPath⟩ = some (.ok v, s) ∧
      ExactLayout (bpbOf twoClusters) v :=
  (mount_exact_iff twoClusters rootPath (by decide)).mpr
    ⟨by decide +kernel, by decide +kernel, by decide +kernel, by decide +kernel⟩

/-- A boot sector of zeros. -/
def zeroSector : Image := Image.sparse 512 []

/-- A boot sector whose FATs end just below 4 GB, so that the root directory does not fit. -/
def highRoot : Image :=
  Image.sparse 512 [(11, [0xFF, 0x7F, 1, 0xFF, 0xFF, 2, 0xFF, 0xFF, 0, 0, 0xF8, 0, 0x80])]

/-- Both boot sectors are mounted, the first with clusters of no byte, the second with a data region
that starts 4 GB too low. -/
theorem mount_inexact :
    mount.run (stdio zeroSector) ⟨0, rootPath⟩ = some (.ok ⟨0, 0, 0, 0, 0⟩, ⟨62, rootPath⟩) ∧
    mount.run (stdio highRoot) ⟨0, rootPath⟩ =
      some (.ok ⟨2147385345, 4294803457, 1933281, 32767, 65535⟩, ⟨62, rootPath⟩) ∧
    (bpbOf highRoot).dataOffset = 1933281 + 2 ^ 32 := by
  rw [mount_run_eq zeroSector rootPath (by decide), mount_run_eq highRoot rootPath (by decide)]
  decide +kernel

end Fat16
