import LinuxHandson.Lib.Blocks
import LinuxHandson.Lib.CInt
import LinuxHandson.Lib.Machine

/-!
# A block device in memory

`blkdemo_queue_rq` over the backing store that `blkdemo_init` allocates. A request comes with the
buffers of its segments, and the reply has them as they are after the call, the status that the call
returns and each status with which it has completed the request.
-/

namespace BlockDemo

open CLib

/-- `SECTOR_SIZE` -/
def sectorSize : Nat := 512

/-- `NSECTORS` -/
def nsectors : Nat := 8192

/-- `struct blkdemo_dev` -/
structure BlkdemoDev where
  data : Ptr
deriving DecidableEq

/-- `blkdemo_init` up to the `memset` of the backing store. -/
def blkdemoInit (h : Heap) : Option BlkdemoDev :=
  match realloc h none (nsectors * sectorSize) with
  | none => none
  | some b => (memset (some b) 0 0 (nsectors * sectorSize)).map BlkdemoDev.mk

/-- `blk_status_t` -/
inductive BlkStatus where
  | ok
  | ioerr
deriving DecidableEq

/-- `rq_data_dir` -/
inductive Dir where
  | read
  | write
deriving DecidableEq

/-- A request: its direction, its first sector, and its segments. -/
structure Request where
  dir : Dir
  pos : Nat
  bufs : List (List UInt8)
deriving DecidableEq

/-- The loop over the segments: the status with which it ends, the store, and the buffers. -/
def forEachSegment (dir : Dir) :
    Nat → Ptr → List (List UInt8) → Option (BlkStatus × Ptr × List (List UInt8))
  | _, data, [] => some (.ok, data, [])
  | sector, data, buf :: bufs =>
    if nsectors * sectorSize < sizeT (sizeT (sector * sectorSize : Nat) + buf.length) then
      some (.ioerr, data, buf :: bufs)
    else match dir with
      | .write =>
        (memcpyTo data (sizeT (sector * sectorSize : Nat)) buf).bind fun data' =>
          (forEachSegment dir (sizeT (sector + buf.length / sectorSize : Nat)) data' bufs).map
            fun p => (p.1, p.2.1, buf :: p.2.2)
      | .read =>
        (memcpyFrom data (sizeT (sector * sectorSize : Nat)) buf.length).bind fun buf' =>
          (forEachSegment dir (sizeT (sector + buf.length / sectorSize : Nat)) data bufs).map
            fun p => (p.1, p.2.1, buf' :: p.2.2)

/-- What the handler returns, the statuses with which it has ended the request, and the segments. -/
structure Reply where
  ret : BlkStatus
  completed : List BlkStatus
  bufs : List (List UInt8)
deriving DecidableEq

/-- `blkdemo_queue_rq`, which ends the request with the status that it returns. -/
def blkdemoQueueRq : Machine.Step BlkdemoDev Request Reply := fun bdev rq =>
  (forEachSegment rq.dir rq.pos bdev.data rq.bufs).map fun p => (⟨p.1, [p.1], p.2.2⟩, ⟨p.2.1⟩)

/-- The number of bytes of a request. -/
def Request.size (rq : Request) : Nat := (rq.bufs.map List.length).sum

/-- The request lies within the device and its segments are whole sectors. -/
def Request.Valid (rq : Request) : Prop :=
  rq.pos + rq.size / sectorSize ≤ nsectors ∧
    ∀ buf ∈ rq.bufs, buf.length ≠ 0 ∧ sectorSize ∣ buf.length

/-! ## The block layer -/

/-- The statuses with which a request is ended when the block layer ends it itself if the driver returns
an error. -/
def endings (r : Reply) : List BlkStatus :=
  match r.ret with
  | .ok => r.completed
  | .ioerr => r.completed ++ [.ioerr]

/-- The request is ended once, and if it fails the store is as it was. -/
def EndsOnce (bdev : BlkdemoDev) (rq : Request) : Prop :=
  ∃ r bdev' status, blkdemoQueueRq bdev rq = some (r, bdev') ∧ endings r = [status] ∧
    (status ≠ .ok → bdev' = bdev)

/-- The segments lie within the store, from the sector on at which the loop stands. -/
def InRange : Nat → List (List UInt8) → Prop
  | _, [] => True
  | sector, buf :: bufs =>
    sizeT (sector * sectorSize : Nat) + buf.length ≤ nsectors * sectorSize ∧
      InRange (sizeT (sector + buf.length / sectorSize : Nat)) bufs

/-! ## The reference -/

/-- An array of sectors. -/
abbrev Sectors := Nat → List UInt8

/-- The sectors after `vzalloc`. -/
def Sectors.zero : Sectors := fun _ => List.replicate sectorSize 0

/-- A read fills its segments with the bytes of its sectors, and a write stores the bytes of its
segments in its sectors. -/
def refStep (t : Sectors) (rq : Request) : Reply × Sectors :=
  match rq.dir with
  | .read =>
    (⟨.ok, [.ok], (rq.bufs.map List.length).splitLengths
      (blockBytes (fun i => t (rq.pos + i)) (rq.size / sectorSize))⟩, t)
  | .write => (⟨.ok, [.ok], rq.bufs⟩, storeBlocks sectorSize t rq.pos rq.bufs.flatten)

end BlockDemo
