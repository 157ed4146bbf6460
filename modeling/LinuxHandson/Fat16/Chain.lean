import LinuxHandson.Fat16.Tree
import LinuxHandson.Lib.Endless

/-!
# Reads along a chain

The two loops of `fusefat_read` as functions of the image, and the chains on which the second one
reads on for ever: those that come to a cycle of clusters past the end of the image.
-/

namespace Fat16

open CLib Relation

/-- `fusefat_read` from where `find_entry` has stored the entry. -/
def readEntry (v : Volume) (fuel : Nat) (entry : DirEntry) (size : Nat) (offset : Int) :
    StdioProg (Int × List UInt8) := do
  if entry.isDirectory then return (-EISDIR, [])
  if offset ≥ entry.fileSize.toNat then return (0, [])
  let size := if sizeT (offset + size) > entry.fileSize.toNat then
    sizeT (entry.fileSize.toNat - offset) else size
  if v.clusterSize = 0 then .stuck
  let clusterSkip := sizeT (offset.tdiv v.clusterSize.toNat)
  let intraOffset := sizeT (offset.tmod v.clusterSize.toNat)
  let cluster ← skipClusters v clusterSkip entry.firstCluster
  let buf ← readChain v size fuel cluster intraOffset []
  return (cInt buf.length, buf)

theorem fusefatRead_eq (v : Volume) (fuel : Nat) (path : CStr) (size : Nat) (offset : Int) :
    fusefatRead v fuel path size offset = (do
      match ← findEntry v fuel path with
      | .error ret => return (ret, [])
      | .ok entry => readEntry v fuel entry size offset) := rfl

section Image

variable (img : Image) (v : Volume)

/-- The FAT entry of a cluster, or `0xFFFF` if the image does not have it whole. -/
def nextCluster (c : UInt16) : UInt16 :=
  if (img.read (v.fatStart + c.toUInt32 * 2).toNat 2).length < 2 then 0xFFFF
  else UInt16.ofNat (leNat (img.read (v.fatStart + c.toUInt32 * 2).toNat 2))

/-- The cluster that is `n` links further. A value from `0xFFF8` on has no next one. -/
def skipTo : Nat → UInt16 → UInt16
  | 0, c => c
  | n + 1, c => if c < 0xFFF8 then skipTo n (nextCluster img v c) else c

/-- The variables of the loop that reads. -/
structure ReadState where
  cluster : UInt16
  intraOffset : Nat
  buf : List UInt8
deriving DecidableEq

/-- The bytes of a cluster from `intra` that the image has. -/
def inImage (c : UInt16) (intra : Nat) : Nat :=
  min (sizeT (v.clusterSize.toNat - intra))
    (img.size - uint32 ((clusterToOffset v c).toNat + intra))

/-- A cluster at which the loop that reads goes on. -/
def DataCluster (c : UInt16) : Prop := c ≥ 2 ∧ c < 0xFFF8

instance (c : UInt16) : Decidable (DataCluster c) := inferInstanceAs (Decidable (_ ∧ _))

/-- One round of the loop that reads. -/
def readRound (size : Nat) (s : ReadState) : Round ReadState (List UInt8) :=
  if s.buf.length < size ∧ DataCluster s.cluster then
    .again {
      cluster := nextCluster img v s.cluster
      intraOffset := 0
      buf := s.buf ++ img.read (uint32 ((clusterToOffset v s.cluster).toNat + s.intraOffset))
        (min (sizeT (v.clusterSize.toNat - s.intraOffset)) (size - s.buf.length)) }
  else .done s.buf

/-- A link from a cluster that starts past the end of the image. -/
def PastEnd (c c' : UInt16) : Prop :=
  DataCluster c ∧ img.size ≤ (clusterToOffset v c).toNat ∧ nextCluster img v c = c'

/-- The links from a cluster lead to a cycle of clusters past the end of the image, and the image has
less than `size` bytes of the clusters before it, the first of them from `intra`. -/
inductive Starves : Nat → Nat → UInt16 → Prop where
  | cycle {size : Nat} {c : UInt16} (hsize : 0 < size) (hc : TransGen (PastEnd img v) c c) :
      Starves size 0 c
  | next {size intra : Nat} {c : UInt16} (hc : DataCluster c) (hsize : inImage img v c intra < size)
      (h : Starves (size - inImage img v c intra) 0 (nextCluster img v c)) : Starves size intra c

end Image

/-- The size of a read, which ends at the end of the file. -/
def readSize (e : DirEntry) (size : Nat) (offset : Int) : Nat :=
  if sizeT (offset + size) > e.fileSize.toNat then sizeT (e.fileSize.toNat - offset) else size

/-- Both loops of `fusefat_read` terminate: some number of rounds is enough. -/
def ReadTerminates (img : Image) (v : Volume) (e : DirEntry) (size : Nat) (offset : Int) : Prop :=
  ∀ s, ∃ fuel, ((readEntry v fuel e size offset).run (stdio img) s).isSome

/-- The read comes to a cycle of clusters past the end of the image. -/
def ReadStarves (img : Image) (v : Volume) (e : DirEntry) (size : Nat) (offset : Int) : Prop :=
  Starves img v (readSize e size offset) (sizeT (offset.tmod v.clusterSize.toNat))
    (skipTo img v (sizeT (offset.tdiv v.clusterSize.toNat)) e.firstCluster)

end Fat16
