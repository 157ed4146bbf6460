import LinuxHandson.Fat16.Tree

/-!
# The contents of a file

What FAT16 says a file holds: the bytes of the clusters of its chain, one after the other. The chain is
read off the FAT at the place that the BPB gives for it.
-/

namespace Fat16

open CLib

namespace Bpb

variable (b : Bpb)

/-- The byte at which the FAT has the entry of a cluster. -/
def entryOffset (c : UInt16) : Nat :=
  b.reservedSectors.toNat * b.bytesPerSector.toNat + 2 * c.toNat

/-- The byte at which a cluster starts. -/
def clusterOffset (c : UInt16) : Nat := b.dataOffset + (c.toNat - 2) * b.clusterBytes

end Bpb

section Image

variable (img : Image) (v : Volume)

/-- The layout of an image on which files can be read: sectors and clusters are not empty, the root
directory has whole sectors, and the regions end within 32 bits. -/
structure Mountable : Prop where
  mounts : sizeofBpb ≤ img.size ∧ layout (bpbOf img) = some v
  sector : (bpbOf img).bytesPerSector ≠ 0
  cluster : (bpbOf img).sectorsPerCluster ≠ 0
  rootSectors : (bpbOf img).bytesPerSector.toNat ∣ (bpbOf img).rootEntryCount.toNat * 32
  sums : (bpbOf img).dataOffset < 2 ^ 32

instance : Decidable (Mountable img v) :=
  decidable_of_iff
    ((sizeofBpb ≤ img.size ∧ layout (bpbOf img) = some v) ∧ (bpbOf img).bytesPerSector ≠ 0 ∧
      (bpbOf img).sectorsPerCluster ≠ 0 ∧
      (bpbOf img).bytesPerSector.toNat ∣ (bpbOf img).rootEntryCount.toNat * 32 ∧
      (bpbOf img).dataOffset < 2 ^ 32)
    ⟨fun ⟨h₁, h₂, h₃, h₄, h₅⟩ => ⟨h₁, h₂, h₃, h₄, h₅⟩,
      fun h => ⟨h.mounts, h.sector, h.cluster, h.rootSectors, h.sums⟩⟩

/-- The bytes before `n` are in the image, at addresses of 32 bits. -/
def Holds (n : Nat) : Prop := n ≤ img.size ∧ n ≤ 2 ^ 32

instance (n : Nat) : Decidable (Holds img n) := inferInstanceAs (Decidable (_ ∧ _))

/-- The entry of a cluster in the FAT. -/
def link (c : UInt16) : UInt16 :=
  UInt16.ofNat (leNat (img.slice ((bpbOf img).entryOffset c) 2))

/-- The FAT chain from `c` is `cs`: clusters `2..0xFFEF`, which lie in the image as their FAT entries do,
up to a value from `0xFFF8` on. -/
inductive ChainFrom : UInt16 → List UInt16 → Prop where
  | done {c : UInt16} (h : 0xFFF8 ≤ c) : ChainFrom c []
  | cluster {c : UInt16} {cs : List UInt16} (hc : 2 ≤ c ∧ c ≤ 0xFFEF)
      (hdata : Holds img ((bpbOf img).clusterOffset c + (bpbOf img).clusterBytes))
      (hentry : Holds img ((bpbOf img).entryOffset c + 2))
      (h : ChainFrom (link img c) cs) : ChainFrom c (c :: cs)

theorem chainFrom_nil_iff {c : UInt16} : ChainFrom img c [] ↔ 0xFFF8 ≤ c := by
  refine ⟨fun h => ?_, .done⟩
  cases h with
  | done h => exact h

theorem chainFrom_cons_iff {c d : UInt16} {cs : List UInt16} :
    ChainFrom img c (d :: cs) ↔ c = d ∧ (2 ≤ d ∧ d ≤ 0xFFEF) ∧
      Holds img ((bpbOf img).clusterOffset d + (bpbOf img).clusterBytes) ∧
      Holds img ((bpbOf img).entryOffset d + 2) ∧ ChainFrom img (link img d) cs := by
  constructor
  · intro h
    cases h with
    | cluster hc hdata hentry h => exact ⟨rfl, hc, hdata, hentry, h⟩
  · rintro ⟨rfl, hc, hdata, hentry, h⟩
    exact .cluster hc hdata hentry h

instance decidableChainFrom : ∀ (c : UInt16) (cs : List UInt16), Decidable (ChainFrom img c cs)
  | _, [] => decidable_of_iff _ (chainFrom_nil_iff img).symm
  | _, d :: cs =>
    have := decidableChainFrom (link img d) cs
    decidable_of_iff _ (chainFrom_cons_iff img).symm

/-- The bytes of a cluster. -/
def clusterData (c : UInt16) : List UInt8 :=
  img.slice ((bpbOf img).clusterOffset c) (bpbOf img).clusterBytes

/-- The clusters of a chain, one after the other. -/
def chainData (cs : List UInt16) : List UInt8 := cs.flatMap (clusterData img)

end Image

end Fat16
