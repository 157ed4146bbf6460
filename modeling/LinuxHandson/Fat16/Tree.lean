import LinuxHandson.Fat16.Directory

/-!
# The directory tree of a FAT16 image

What an image stores, read off its FAT and its directories: a directory is the root directory or a
chain of clusters, its entries are those in all of its slots, and the directories form a tree. A
well-formed image is one whose layout, chains and names make sense as FAT16.
-/

namespace Fat16

open CLib

/-- The BPB of the image. -/
def bpbOf (img : Image) : Bpb := Bpb.decode (img.slice 0 sizeofBpb)

namespace Bpb

variable (b : Bpb)

/-- The sectors of the volume. -/
def totalSectors : Nat :=
  if b.totalSectors16 ≠ 0 then b.totalSectors16.toNat else b.totalSectors32.toNat

/-- The byte at which the data region starts. -/
def dataOffset : Nat :=
  b.reservedSectors.toNat * b.bytesPerSector.toNat +
    b.numFats.toNat * b.fatSize16.toNat * b.bytesPerSector.toNat + b.rootEntryCount.toNat * 32

/-- The bytes of a cluster. -/
def clusterBytes : Nat := b.sectorsPerCluster.toNat * b.bytesPerSector.toNat

/-- The clusters of the data region. -/
def clusterCount : Nat :=
  (b.totalSectors * b.bytesPerSector.toNat - b.dataOffset) / b.clusterBytes

/-- The number of a cluster of the data region. -/
def IsCluster (c : UInt16) : Prop := 2 ≤ c.toNat ∧ c.toNat < b.clusterCount + 2

instance (c : UInt16) : Decidable (b.IsCluster c) := inferInstanceAs (Decidable (_ ∧ _))

end Bpb

section Image

variable (img : Image) (v : Volume)

/-- The FAT entry of a cluster. -/
def fatEntry (c : UInt16) : UInt16 :=
  UInt16.ofNat (leNat (img.slice (v.fatStart.toNat + 2 * c.toNat) 2))

/-- The first `n` clusters of a chain. A value from `0xFFF8` on ends it. -/
def chainUpTo : Nat → UInt16 → List UInt16
  | 0, _ => []
  | n + 1, c => if c < 0xFFF8 then c :: chainUpTo n (fatEntry img v c) else []

/-- The chain of clusters from `c`, which is shorter than the number of FAT entries. -/
def chain (c : UInt16) : List UInt16 := chainUpTo img v 65536 c

/-- All clusters of the chain from `c` are clusters of the data region, and none comes twice. -/
def ChainOk (c : UInt16) : Prop :=
  (bpbOf img).IsCluster c ∧ (∀ x ∈ chain img v c, (bpbOf img).IsCluster x) ∧ (chain img v c).Nodup

/-- All slots of an extent. -/
def Extent.slotEntries (x : Extent) : List DirEntry :=
  (List.range x.slots).map fun i => entryAt img (x.start.toNat + sizeofDirEntry * i)

/-- The live entries of a list of slots: those before the end marker that are neither deleted nor
long-name slots nor volume labels. -/
def live (l : List DirEntry) : List DirEntry :=
  (l.takeWhile fun e => ¬ e.isEnd).filter fun e => ¬ e.skipped

/-- A directory: the root, or the chain that starts at a cluster. -/
inductive Dir where
  | root
  | sub (first : UInt16)
deriving DecidableEq

/-- The extents of a directory, in order. -/
def Dir.extents : Dir → List Extent
  | .root => [v.rootExtent]
  | .sub c => (chain img v c).map v.clusterExtent

/-- The live entries stored anywhere in a directory. -/
def Dir.entries (d : Dir) : List DirEntry :=
  live ((d.extents img v).flatMap (Extent.slotEntries img))

/-- The entries `.` and `..` with which a subdirectory starts. -/
def DirEntry.isDots (e : DirEntry) : Prop := formatName e = dot ∨ formatName e = dotdot

instance (e : DirEntry) : Decidable e.isDots := inferInstanceAs (Decidable (_ ∨ _))

/-- The directory at a path of names below the root. -/
inductive Dir.At : List CStr → Dir → Prop where
  | root : Dir.At [] .root
  | sub {cs : List CStr} {d : Dir} {e : DirEntry} (h : Dir.At cs d)
      (he : e ∈ d.entries img v) (hdir : e.isDirectory) (hdots : ¬ e.isDots) :
      Dir.At (cs ++ [formatName e]) (.sub e.firstCluster)

/-- The path of the directory at a list of names. -/
def pathOf (cs : List CStr) : CStr := cs.foldl child rootPath

theorem pathOf_append (cs : List CStr) (c : CStr) : pathOf (cs ++ [c]) = child (pathOf cs) c := by
  rw [pathOf, List.foldl_append]
  rfl

/-- A well-formed FAT16 image, with the layout `v`. The 8.3 name of an entry is `formatName`, by which a
name and an extension have no inner space: each ends at its first one. -/
structure WellFormed : Prop where
  /-- The image has a BPB, and `v` is its layout. -/
  mounts : sizeofBpb ≤ img.size ∧ layout (bpbOf img) = some v
  /-- Sectors hold whole slots. -/
  sector : 0 < (bpbOf img).bytesPerSector.toNat ∧ 32 ∣ (bpbOf img).bytesPerSector.toNat
  /-- A cluster has at most 32 KB. -/
  cluster : 0 < (bpbOf img).clusterBytes ∧ (bpbOf img).clusterBytes ≤ 32768
  /-- The root directory has whole sectors. -/
  rootSectors : (bpbOf img).bytesPerSector.toNat ∣ (bpbOf img).rootEntryCount.toNat * 32
  /-- The regions fit in the volume, and the volume in the image and in 32 bits. -/
  regions : (bpbOf img).dataOffset ≤
      (bpbOf img).totalSectors * (bpbOf img).bytesPerSector.toNat
  image : (bpbOf img).totalSectors * (bpbOf img).bytesPerSector.toNat ≤ img.size ∧
    (bpbOf img).totalSectors * (bpbOf img).bytesPerSector.toNat < 2 ^ 32
  /-- The number of clusters is one of FAT16, and the FAT has an entry for each of them. -/
  clusters : 4085 ≤ (bpbOf img).clusterCount ∧ (bpbOf img).clusterCount < 65525
  fat : 0 < (bpbOf img).numFats.toNat ∧ 2 * ((bpbOf img).clusterCount + 2) ≤
    (bpbOf img).fatSize16.toNat * (bpbOf img).bytesPerSector.toNat
  /-- The names of a directory can stand in a path, and differ in more than case. -/
  names : ∀ cs d, Dir.At img v cs d → ∀ e ∈ d.entries img v, IsComponent (formatName e)
  distinct : ∀ cs d, Dir.At img v cs d →
    (d.entries img v).Pairwise fun e e' => strcasecmp (formatName e) (formatName e') ≠ 0
  /-- The chains of directories and of files that are not empty are chains of the data region. -/
  chains : ∀ cs d, Dir.At img v cs d → ∀ e ∈ d.entries img v,
    (e.isDirectory ∧ ¬ e.isDots ∨ ¬ e.isDirectory ∧ e.fileSize ≠ 0) → ChainOk img v e.firstCluster
  lengths : ∀ cs d, Dir.At img v cs d → ∀ e ∈ d.entries img v, ¬ e.isDirectory →
    e.fileSize.toNat ≤ (chain img v e.firstCluster).length * (bpbOf img).clusterBytes
  /-- No cluster belongs to two directories. -/
  tree : ∀ cs cs' c c' x, Dir.At img v cs (.sub c) → Dir.At img v cs' (.sub c') →
    x ∈ chain img v c → x ∈ chain img v c' → cs = cs'

end Image

/-! ## A directory of two clusters -/

/-- A slot: its name, attributes, first cluster and size. -/
def slotBytes (name : List UInt8) (attr cluster size : UInt8) : List UInt8 :=
  name ++ List.replicate (11 - name.length) space ++ attr :: List.replicate 14 0 ++
    [cluster, 0, size, 0, 0, 0]

/-- A volume of 512-byte clusters. The root directory holds a directory `D` of two clusters and a
file `F` of 5 bytes. The first cluster of `D` is full, the second holds a file `Z`. -/
def twoClusters : Image := Image.sparse (4219 * 512) [
  (11, [0, 2, 1, 1, 0, 1, 16, 0, 0x7B, 0x10, 0xF8, 17, 0]),
  (512, [0xF8, 0xFF, 0xFF, 0xFF, 3, 0, 0xFF, 0xFF, 0xFF, 0xFF]),
  (9216, slotBytes [0x44] attrDirectory 2 0 ++ slotBytes [0x46] 0 4 5),
  (9728, slotBytes [dotChar] attrDirectory 2 0 ++ slotBytes [dotChar, dotChar] attrDirectory 0 0 ++
    (List.range 14).flatMap fun i => slotBytes [0x41 + UInt8.ofNat i] 0 0 0),
  (10240, slotBytes [0x5A] 0 0 0),
  (10752, [0x68, 0x65, 0x6C, 0x6C, 0x6F])]

/-- The layout of `twoClusters`. -/
def twoClustersVolume : Volume := ⟨512, 9216, 9728, 512, 16⟩

/-- The name `D`. -/
def nameD : CStr := ⟨[0x44], by decide⟩

theorem twoClusters_dirs {cs : List CStr} {d : Dir}
    (h : Dir.At twoClusters twoClustersVolume cs d) :
    (cs = [] ∧ d = .root) ∨ (cs = [nameD] ∧ d = .sub 2) := by
  induction h with
  | root => exact Or.inl ⟨rfl, rfl⟩
  | @sub cs d e _ he hdir hdots ih =>
    rcases ih with ⟨rfl, rfl⟩ | ⟨rfl, rfl⟩
    · have hroot : ∀ e ∈ Dir.root.entries twoClusters twoClustersVolume, e.isDirectory →
          ¬ e.isDots → formatName e = nameD ∧ e.firstCluster = 2 := by decide +kernel
      obtain ⟨hname, hfirst⟩ := hroot e he hdir hdots
      exact Or.inr ⟨by rw [hname]; rfl, by rw [hfirst]⟩
    · have hsub : ∀ e ∈ (Dir.sub 2).entries twoClusters twoClustersVolume, e.isDirectory →
          e.isDots := by decide +kernel
      exact absurd (hsub e he hdir) hdots

instance (c : CStr) : Decidable (IsComponent c) := inferInstanceAs (Decidable (_ ∧ _))

instance (img : Image) (v : Volume) (c : UInt16) : Decidable (ChainOk img v c) :=
  -- over the chain, not over all clusters
  have : Decidable (∀ x ∈ chain img v c, (bpbOf img).IsCluster x) := List.decidableBAll _ _
  inferInstanceAs (Decidable (_ ∧ _))

/-- A property of the two directories of `twoClusters` is one of all its directories. -/
theorem twoClusters_forall {P : Dir → Prop} (hroot : P .root) (hsub : P (.sub 2)) :
    ∀ cs d, Dir.At twoClusters twoClustersVolume cs d → P d := by
  intro cs d h
  rcases twoClusters_dirs h with ⟨-, rfl⟩ | ⟨-, rfl⟩
  · exact hroot
  · exact hsub

theorem twoClusters_wellFormed : WellFormed twoClusters twoClustersVolume where
  mounts := by decide +kernel
  sector := by decide +kernel
  cluster := by decide +kernel
  rootSectors := by decide +kernel
  regions := by decide +kernel
  image := by decide +kernel
  clusters := by decide +kernel
  fat := by decide +kernel
  names := twoClusters_forall (by decide +kernel) (by decide +kernel)
  distinct := twoClusters_forall (by decide +kernel) (by decide +kernel)
  chains := twoClusters_forall (by decide +kernel) (by decide +kernel)
  lengths := twoClusters_forall (by decide +kernel) (by decide +kernel)
  tree := by
    intro cs cs' c c' x h h' hx hx'
    rcases twoClusters_dirs h with ⟨-, hc⟩ | ⟨rfl, -⟩
    · cases hc
    · rcases twoClusters_dirs h' with ⟨-, hc⟩ | ⟨rfl, -⟩
      · cases hc
      · rfl

end Fat16
