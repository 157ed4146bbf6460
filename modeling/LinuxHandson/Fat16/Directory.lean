import LinuxHandson.Fat16.FuseFat

/-!
# Directories as lists of entries

What the scans of the driver come to, as functions of the image: the live entries of an extent of
slots, and the entry that a list of path components leads to.
-/

namespace Fat16

open CLib

/-- The slot at `off`. -/
def entryAt (img : Image) (off : Nat) : DirEntry := DirEntry.decode (img.slice off sizeofDirEntry)

/-- The live entries among `n` slots from `off`: those before the end marker and the end of the
image that are neither deleted nor long-name slots nor volume labels. -/
def liveEntries (img : Image) : Nat → Nat → List DirEntry
  | _, 0 => []
  | off, n + 1 =>
    if img.size < off + sizeofDirEntry then []
    else if (entryAt img off).isEnd then []
    else if (entryAt img off).skipped then liveEntries img (off + sizeofDirEntry) n
    else entryAt img off :: liveEntries img (off + sizeofDirEntry) n

/-- The slots that a scan of a directory goes through. -/
structure Extent where
  start : UInt32
  slots : Nat

/-- The root directory. -/
def Volume.rootExtent (v : Volume) : Extent := ⟨v.rootDirStart, v.rootEntryCount.toNat⟩

/-- One cluster. -/
def Volume.clusterExtent (v : Volume) (cluster : UInt16) : Extent :=
  ⟨clusterToOffset v cluster, v.clusterSize.toNat / sizeofDirEntry⟩

/-- The live entries of an extent. -/
def Extent.entries (img : Image) (x : Extent) : List DirEntry :=
  liveEntries img x.start.toNat x.slots

/-- The entry has the name `c`, in upper or lower case. -/
def DirEntry.named (c : CStr) (e : DirEntry) : Bool := decide (strcasecmp (formatName e) c = 0)

/-- The entry that a list of components leads to from an extent, or the error of the walk. -/
def resolve (img : Image) (v : Volume) : Extent → List CStr → Except Int DirEntry
  | _, [] => .error (-ENOENT)
  | x, [c] =>
    match (x.entries img).find? (DirEntry.named c) with
    | none => .error (-ENOENT)
    | some e => .ok e
  | x, c :: c' :: cs =>
    match (x.entries img).find? (DirEntry.named c) with
    | none => .error (-ENOENT)
    | some e =>
      if ¬ e.isDirectory then .error (-ENOTDIR)
      else resolve img v (v.clusterExtent e.firstCluster) (c' :: cs)

theorem resolve_cons_cons (img : Image) (v : Volume) (x : Extent) (c c' : CStr)
    (cs : List CStr) :
    resolve img v x (c :: c' :: cs) =
      match (x.entries img).find? (DirEntry.named c) with
      | none => .error (-ENOENT)
      | some e =>
        if ¬ e.isDirectory then .error (-ENOTDIR)
        else resolve img v (v.clusterExtent e.firstCluster) (c' :: cs) := by
  rw [resolve]

/-- The components of a path as `find_entry` sees them: of its first 511 bytes after the slash. -/
def components (path : CStr) : List CStr := tokens (strncpy (path.offset 1) pathcopyLen) slash

/-- All components of a path, whatever its length. -/
def allComponents (path : CStr) : List CStr := tokens (path.offset 1) slash

/-- Each component names an entry of the directory reached so far, all but the last one directories,
and the last one names `e`. The directory of an entry is the one at its first cluster. -/
inductive Leads (img : Image) (v : Volume) : Extent → List CStr → DirEntry → Prop where
  | last {x : Extent} {c : CStr} {e : DirEntry}
      (h : (x.entries img).find? (DirEntry.named c) = some e) : Leads img v x [c] e
  | into {x : Extent} {c : CStr} {cs : List CStr} {d e : DirEntry}
      (h : (x.entries img).find? (DirEntry.named c) = some d) (hd : d.isDirectory)
      (hcs : Leads img v (v.clusterExtent d.firstCluster) cs e) : Leads img v x (c :: cs) e

/-- What `find_entry` finds. -/
def lookup (img : Image) (v : Volume) (path : CStr) : Except Int DirEntry :=
  if path = rootPath then .ok DirEntry.root else resolve img v v.rootExtent (components path)

/-- The path of the name `c` in the directory of path `p`. -/
def child (p c : CStr) : CStr :=
  if p = rootPath then rootPath.append c else (p.append rootPath).append c

/-- A name as a path has them between its slashes. -/
def IsComponent (c : CStr) : Prop := c.bytes ≠ [] ∧ slash ∉ c.bytes

/-- The extent that `fusefat_readdir` lists for a path at which `find_entry` found `e`. -/
def listedExtent (v : Volume) (path : CStr) (e : DirEntry) : Extent :=
  if path = rootPath then v.rootExtent else v.clusterExtent e.firstCluster

end Fat16
