import LinuxHandson.Lib.Bytes
import LinuxHandson.Lib.CInt
import LinuxHandson.Lib.Errno
import LinuxHandson.Lib.Stdio

/-!
# FAT16 structures on disk

The packed structures that `fuse_fat.c` and `fat_parser.c` both declare, decoded from the bytes
that `fread` stores over them on a little-endian machine, and the layout that both compute.
-/

namespace Fat16

open CLib

/-- The field of `n` bytes at offset `off` of a packed structure. -/
def field (b : List UInt8) (off n : Nat) : List UInt8 := (b.drop off).take n

/-- The fields of `fat16_bpb_t` that enter the layout of the volume. -/
structure Bpb where
  bytesPerSector : UInt16
  sectorsPerCluster : UInt8
  reservedSectors : UInt16
  numFats : UInt8
  rootEntryCount : UInt16
  totalSectors16 : UInt16
  fatSize16 : UInt16
  totalSectors32 : UInt32
deriving DecidableEq

/-- `sizeof(fat16_bpb_t)` -/
def sizeofBpb : Nat := 62

/-- The fields of `fat16_bpb_t` in the first bytes of an image. -/
def Bpb.decode (b : List UInt8) : Bpb where
  bytesPerSector := UInt16.ofNat (leNat (field b 11 2))
  sectorsPerCluster := b.getD 13 0
  reservedSectors := UInt16.ofNat (leNat (field b 14 2))
  numFats := b.getD 16 0
  rootEntryCount := UInt16.ofNat (leNat (field b 17 2))
  totalSectors16 := UInt16.ofNat (leNat (field b 19 2))
  fatSize16 := UInt16.ofNat (leNat (field b 22 2))
  totalSectors32 := UInt32.ofNat (leNat (field b 32 4))

/-- `fat_dir_entry_t` -/
structure DirEntry where
  name : List UInt8
  ext : List UInt8
  attr : UInt8
  ntReserved : UInt8
  createTimeTenth : UInt8
  createTime : UInt16
  createDate : UInt16
  accessDate : UInt16
  firstClusterHi : UInt16
  modifyTime : UInt16
  modifyDate : UInt16
  firstCluster : UInt16
  fileSize : UInt32
deriving DecidableEq

/-- `sizeof(fat_dir_entry_t)` -/
def sizeofDirEntry : Nat := 32

/-- The fields of `fat_dir_entry_t` in its bytes. -/
def DirEntry.decode (b : List UInt8) : DirEntry where
  name := field b 0 8
  ext := field b 8 3
  attr := b.getD 11 0
  ntReserved := b.getD 12 0
  createTimeTenth := b.getD 13 0
  createTime := UInt16.ofNat (leNat (field b 14 2))
  createDate := UInt16.ofNat (leNat (field b 16 2))
  accessDate := UInt16.ofNat (leNat (field b 18 2))
  firstClusterHi := UInt16.ofNat (leNat (field b 20 2))
  modifyTime := UInt16.ofNat (leNat (field b 22 2))
  modifyDate := UInt16.ofNat (leNat (field b 24 2))
  firstCluster := UInt16.ofNat (leNat (field b 26 2))
  fileSize := UInt32.ofNat (leNat (field b 28 4))

/-- `fread(&entry, sizeof(entry), 1, fp)`: the entry, when the call returns 1. -/
def freadEntry : StdioProg (Option DirEntry) := do
  let b ← fread sizeofDirEntry 1
  return if b.length < sizeofDirEntry then none else some (DirEntry.decode b)

/-- `ATTR_DIRECTORY` -/
def attrDirectory : UInt8 := 0x10

/-- `ATTR_VOLUME_ID` -/
def attrVolumeId : UInt8 := 0x08

/-- `ATTR_LONG_NAME` -/
def attrLongName : UInt8 := 0x0F

/-- `entry.attr & ATTR_DIRECTORY` -/
def DirEntry.isDirectory (e : DirEntry) : Prop := e.attr &&& attrDirectory ≠ 0

/-- `(uint8_t)entry.name[0] == 0x00`: no entry of the directory follows. -/
def DirEntry.isEnd (e : DirEntry) : Prop := e.name.getD 0 0 = 0x00

/-- `(uint8_t)entry.name[0] == 0xE5` -/
def DirEntry.isDeleted (e : DirEntry) : Prop := e.name.getD 0 0 = 0xE5

/-- `entry.attr & ATTR_VOLUME_ID` -/
def DirEntry.isVolumeId (e : DirEntry) : Prop := e.attr &&& attrVolumeId ≠ 0

instance (e : DirEntry) : Decidable e.isDirectory := inferInstanceAs (Decidable (_ ≠ _))
instance (e : DirEntry) : Decidable e.isEnd := inferInstanceAs (Decidable (_ = _))
instance (e : DirEntry) : Decidable e.isDeleted := inferInstanceAs (Decidable (_ = _))
instance (e : DirEntry) : Decidable e.isVolumeId := inferInstanceAs (Decidable (_ ≠ _))

/-- The space that pads a name. -/
def space : UInt8 := 0x20

/-- The dot before an extension. -/
def dotChar : UInt8 := 0x2E

/-- `format_name`: the 8.3 name as a string. A NUL byte inside the name ends the string. -/
def formatName (e : DirEntry) : CStr :=
  CStr.ofBuf ((e.name.take 8).takeWhile (· != space) ++
    if e.ext.getD 0 0 ≠ space then dotChar :: (e.ext.take 3).takeWhile (· != space) else [])

/-- The layout that `main` computes from the BPB and leaves in the global variables. -/
structure Volume where
  fatStart : UInt32
  rootDirStart : UInt32
  dataStart : UInt32
  clusterSize : UInt32
  rootEntryCount : UInt16
deriving DecidableEq

/-- The layout. The products of the fields are of type `int`; there is none when one overflows. -/
def layout (bpb : Bpb) : Option Volume := do
  let reserved ← intArith (bpb.reservedSectors.toNat * bpb.bytesPerSector.toNat)
  let fatSectors ← intArith (bpb.numFats.toNat * bpb.fatSize16.toNat)
  let fats ← intArith (fatSectors * bpb.bytesPerSector.toNat)
  let rootDirSize ← intArith (bpb.rootEntryCount.toNat * 32)
  let clusterSize ← intArith (bpb.sectorsPerCluster.toNat * bpb.bytesPerSector.toNat)
  let fatStart := UInt32.ofInt reserved
  let rootDirStart := fatStart + UInt32.ofInt fats
  let dataStart := rootDirStart + UInt32.ofInt rootDirSize
  return ⟨fatStart, rootDirStart, dataStart, UInt32.ofInt clusterSize, bpb.rootEntryCount⟩

end Fat16
