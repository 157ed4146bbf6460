import LinuxHandson.Fat16.Fat16

/-!
# The FUSE driver for FAT16 images (`fuse_fat.c`)

The handlers of `fusefat_ops` as programs over the calls of the C library that they make. All share
the position of `disk_fp` and the pointer that `strtok` keeps. A loop whose number of rounds the
image decides takes a bound on its rounds.
-/

namespace Fat16

open CLib

/-- The path `"/"`. -/
def rootPath : CStr := ⟨[slash], slash_nulFree⟩

/-- The name `"."`. -/
def dot : CStr := ⟨[dotChar], by decide⟩

/-- The name `".."`. -/
def dotdot : CStr := ⟨[dotChar, dotChar], by decide⟩

/-- `main` up to the layout: the return code 1 when the BPB cannot be read, otherwise the globals. -/
def mount : StdioProg (Except Int Volume) := do
  let b ← fread sizeofBpb 1
  if b.length < sizeofBpb then return .error 1
  match layout (Bpb.decode b) with
  | none => .stuck
  | some v => return .ok v

/-- `fat_next_cluster` -/
def fatNextCluster (v : Volume) (cluster : UInt16) : StdioProg UInt16 := do
  fseek (v.fatStart + cluster.toUInt32 * 2).toNat
  let b ← fread 2 1
  if b.length < 2 then return 0xFFFF
  return UInt16.ofNat (leNat b)

/-- `cluster_to_offset` -/
def clusterToOffset (v : Volume) (cluster : UInt16) : UInt32 :=
  v.dataStart + (cluster.toUInt32 - 2) * v.clusterSize

/-- The entries that the loops of `find_entry` and `fusefat_readdir` pass over with `continue`. -/
def DirEntry.skipped (e : DirEntry) : Prop :=
  e.isDeleted ∨ e.attr = attrLongName ∨ e.isVolumeId

instance (e : DirEntry) : Decidable e.skipped := inferInstanceAs (Decidable (_ ∨ _))

/-- The inner loop of `find_entry`, with `n` rounds to go: the entry whose name is `component`. -/
def searchDir (component : CStr) : Nat → StdioProg (Option DirEntry)
  | 0 => return none
  | n + 1 => do
    match ← freadEntry with
    | none => return none
    | some entry =>
      if entry.isEnd then return none
      else if entry.skipped then searchDir component n
      else if strcasecmp (formatName entry) component = 0 then return some entry
      else searchDir component n

/-- The outer loop of `find_entry`, in a directory of `maxEntries` slots at `dirOffset`. -/
def walk (v : Volume) : Nat → UInt32 → Nat → CStr → StdioProg (Except Int DirEntry)
  | 0, _, _, _ => .stuck
  | fuel + 1, dirOffset, maxEntries, component => do
    let nextComponent ← strtokCall none slash
    fseek dirOffset.toNat
    match ← searchDir component maxEntries with
    | none => return .error (-ENOENT)
    | some entry =>
      match nextComponent with
      | none => return .ok entry
      | some next =>
        if ¬ entry.isDirectory then return .error (-ENOTDIR)
        walk v fuel (clusterToOffset v entry.firstCluster) (v.clusterSize.toNat / 32) next

/-- What `find_entry` stores for the path `"/"`. -/
def DirEntry.root : DirEntry where
  name := List.replicate 8 0
  ext := List.replicate 3 0
  attr := attrDirectory
  ntReserved := 0
  createTimeTenth := 0
  createTime := 0
  createDate := 0
  accessDate := 0
  firstClusterHi := 0
  modifyTime := 0
  modifyDate := 0
  firstCluster := 0
  fileSize := 0

/-- `sizeof(pathcopy) - 1` -/
def pathcopyLen : Nat := 511

/-- `find_entry`: the entry stored in `result`, or a negative return code. A path without even a
slash has no `path + 1`. -/
def findEntry (v : Volume) (fuel : Nat) (path : CStr) : StdioProg (Except Int DirEntry) := do
  if strcmp path rootPath = 0 then return .ok DirEntry.root
  if path.bytes = [] then .stuck
  let pathcopy := strncpy (path.offset 1) pathcopyLen
  match ← strtokCall (some pathcopy) slash with
  | none => return .error (-ENOENT)
  | some component => walk v fuel v.rootDirStart v.rootEntryCount.toNat component

/-- The fields of `struct stat` that `fusefat_getattr` sets. -/
structure Stat where
  stMode : Nat
  stNlink : Nat
  stSize : Nat
  stUid : Nat
  stGid : Nat
deriving DecidableEq

/-- `S_IFDIR` -/
def sIfdir : Nat := 0o040000

/-- `S_IFREG` -/
def sIfreg : Nat := 0o100000

/-- `fusefat_getattr`, in a process of user `uid` and group `gid`. -/
def fusefatGetattr (v : Volume) (uid gid fuel : Nat) (path : CStr) :
    StdioProg (Int × Option Stat) := do
  match ← findEntry v fuel path with
  | .error ret => return (ret, none)
  | .ok entry =>
    if entry.isDirectory then return (0, some ⟨sIfdir ||| 0o755, 2, 0, uid, gid⟩)
    return (0, some ⟨sIfreg ||| 0o444, 1, entry.fileSize.toNat, uid, gid⟩)

/-- The loop of `fusefat_readdir`, with `n` rounds to go: the names passed to `filler`. -/
def listDir : Nat → StdioProg (List CStr)
  | 0 => return []
  | n + 1 => do
    match ← freadEntry with
    | none => return []
    | some entry =>
      if entry.isEnd then return []
      else if entry.skipped then listDir n
      else return formatName entry :: (← listDir n)

/-- `fusefat_readdir`: the names passed to `filler`, in order. -/
def fusefatReaddir (v : Volume) (fuel : Nat) (path : CStr) : StdioProg (Int × List CStr) := do
  match ← findEntry v fuel path with
  | .error ret => return (ret, [])
  | .ok dirEntry =>
    let (dirOffset, maxEntries) :=
      if strcmp path rootPath = 0 then (v.rootDirStart, v.rootEntryCount.toNat)
      else (clusterToOffset v dirEntry.firstCluster, v.clusterSize.toNat / 32)
    fseek dirOffset.toNat
    return (0, dot :: dotdot :: (← listDir maxEntries))

/-- The loop of `fusefat_read` that skips `n` clusters of the chain. -/
def skipClusters (v : Volume) : Nat → UInt16 → StdioProg UInt16
  | 0, cluster => return cluster
  | n + 1, cluster => do
    if cluster < 0xFFF8 then skipClusters v n (← fatNextCluster v cluster)
    else return cluster

/-- The loop of `fusefat_read` that reads `size` bytes along the chain. The bytes read so far are in
`buf`. -/
def readChain (v : Volume) (size : Nat) : Nat → UInt16 → Nat → List UInt8 → StdioProg (List UInt8)
  | 0, _, _, _ => .stuck
  | fuel + 1, cluster, intraOffset, buf => do
    if buf.length < size ∧ cluster ≥ 2 ∧ cluster < 0xFFF8 then
      let coff := uint32 ((clusterToOffset v cluster).toNat + intraOffset)
      let toRead := sizeT (v.clusterSize.toNat - intraOffset)
      let toRead := if toRead > size - buf.length then size - buf.length else toRead
      fseek coff
      let b ← fread 1 toRead
      let next ← fatNextCluster v cluster
      readChain v size fuel next 0 (buf ++ b)
    else return buf

/-- `fusefat_read`: the return code, and the bytes stored in `buf`. A cluster of size 0 is a
division by zero. -/
def fusefatRead (v : Volume) (fuel : Nat) (path : CStr) (size : Nat) (offset : Int) :
    StdioProg (Int × List UInt8) := do
  match ← findEntry v fuel path with
  | .error ret => return (ret, [])
  | .ok entry =>
    if entry.isDirectory then return (-EISDIR, [])
    if offset ≥ entry.fileSize.toNat then return (0, [])
    let size := if sizeT (offset + size) > entry.fileSize.toNat then
      sizeT (entry.fileSize.toNat - offset) else size
    if v.clusterSize = 0 then .stuck
    let clusterSkip := sizeT (offset.tdiv v.clusterSize.toNat)
    let intraOffset := sizeT (offset.tmod v.clusterSize.toNat)
    let cluster ← skipClusters v clusterSkip entry.firstCluster
    let buf ← readChain v size fuel cluster intraOffset []
    return (cInt buf.length, buf)

/-- `fusefat_open` -/
def fusefatOpen (v : Volume) (fuel : Nat) (path : CStr) : StdioProg Int := do
  match ← findEntry v fuel path with
  | .error ret => return ret
  | .ok _ => return 0

/-- A request to one of the handlers of `fusefat_ops`. -/
inductive Request where
  | getattr (path : CStr)
  | readdir (path : CStr)
  | read (path : CStr) (size : Nat) (offset : Int)
  | open (path : CStr)

/-- What a handler hands back. -/
inductive Reply where
  | attr (ret : Int) (st : Option Stat)
  | names (ret : Int) (names : List CStr)
  | data (ret : Int) (buf : List UInt8)
  | opened (ret : Int)
deriving DecidableEq

/-- `fusefat_ops`, in a process of user `uid` and group `gid`. -/
def fusefatOps (v : Volume) (uid gid fuel : Nat) : Request → StdioProg Reply
  | .getattr path => do
    let (ret, st) ← fusefatGetattr v uid gid fuel path
    return .attr ret st
  | .readdir path => do
    let (ret, names) ← fusefatReaddir v fuel path
    return .names ret names
  | .read path size offset => do
    let (ret, buf) ← fusefatRead v fuel path size offset
    return .data ret buf
  | .open path => do
    return .opened (← fusefatOpen v fuel path)

end Fat16
