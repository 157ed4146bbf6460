import LinuxHandson.Lib.CInt
import LinuxHandson.Lib.CMemory
import LinuxHandson.Lib.CString
import LinuxHandson.Lib.Errno
import LinuxHandson.Lib.Machine
import LinuxHandson.Lib.SlotTable

/-!
# The in-memory FUSE filesystem (`memfs.c`)

All handlers of `memfs_ops`, over the table `entries`. A handler has no result when the C code
leaves the bounds of a heap block; otherwise it gives its return code, what it hands back through
its other arguments, and the table it leaves.
-/

namespace Memfs

open CLib

/-- `MAX_FILES` -/
def maxFiles : Nat := 64

/-- `MAX_NAME_LEN` -/
def maxNameLen : Nat := 255

/-- `MAX_DATA_SIZE` -/
def maxDataSize : Nat := 1024 * 1024

/-- `memfs_entry_t`. The buffer `name` of 256 bytes is the string it holds. -/
structure MemfsEntry where
  name : CStr
  isDir : Bool
  mode : Nat
  uid : Nat
  gid : Nat
  atime : Int
  mtime : Int
  ctime : Int
  data : Ptr
  size : Nat
  used : Bool

/-- The entry that `memset` to zero leaves. -/
def MemfsEntry.zero : MemfsEntry where
  name := ⟨[], List.not_mem_nil⟩
  isDir := false
  mode := 0
  uid := 0
  gid := 0
  atime := 0
  mtime := 0
  ctime := 0
  data := none
  size := 0
  used := false

/-- `entries` -/
abbrev Table := Fin maxFiles → MemfsEntry

/-- The table after the `memset` of `main`. -/
def Table.init : Table := fun _ => MemfsEntry.zero

/-- What a call reads from outside the program: `time(NULL)`, `getuid()`, `getgid()` and the heap. -/
structure Env where
  now : Int
  uid : Nat
  gid : Nat
  heap : Heap

/-- The path `"/"`. -/
def root : CStr := ⟨[slash], slash_nulFree⟩

/-- `find_entry` -/
def findEntry (t : Table) (path : CStr) : Option (Fin maxFiles) :=
  SlotTable.first (fun e => e.used && decide (strcmp e.name path = 0)) t

/-- `alloc_entry` -/
def allocEntry (env : Env) (t : Table) : Option (Fin maxFiles × Table) :=
  match SlotTable.first (fun e => !e.used) t with
  | none => none
  | some i =>
    some (i, Function.update t i
      { MemfsEntry.zero with used := true, atime := env.now, mtime := env.now, ctime := env.now })

/-- The fields of `struct stat` that `memfs_getattr` sets. -/
structure Stat where
  stMode : Nat
  stNlink : Nat
  stUid : Nat
  stGid : Nat
  stSize : Nat
  stAtime : Int
  stMtime : Int
  stCtime : Int
deriving DecidableEq

/-- `S_IFDIR` -/
def sIfdir : Nat := 0o040000

/-- `S_IFREG` -/
def sIfreg : Nat := 0o100000

/-- `memfs_getattr` -/
def memfsGetattr (env : Env) (t : Table) (path : CStr) : Int × Option Stat :=
  if strcmp path root = 0 then
    (0, some ⟨sIfdir ||| 0o755, 2, env.uid, env.gid, 0, 0, 0, 0⟩)
  else
    match findEntry t path with
    | none => (-ENOENT, none)
    | some i =>
      let e := t i
      if e.isDir then (0, some ⟨sIfdir ||| e.mode, 2, e.uid, e.gid, 0, e.atime, e.mtime, e.ctime⟩)
      else (0, some ⟨sIfreg ||| e.mode, 1, e.uid, e.gid, e.size, e.atime, e.mtime, e.ctime⟩)

/-- What one round of the loop of `memfs_readdir` passes to `filler`, if anything. -/
def readdirEmit (path : CStr) (e : MemfsEntry) : Option CStr :=
  let pathlen := strlen path
  let name := e.name
  if !e.used then none
  else if strcmp path root = 0 then
    if name.charAt 0 = slash ∧ strchr (name.offset 1) slash = none then some (name.offset 1)
    else none
  else
    if strncmp name path pathlen = 0 ∧ name.charAt pathlen = slash ∧
        strchr (name.offset (pathlen + 1)) slash = none then
      some (name.offset (pathlen + 1))
    else none

/-- The name `"."`. -/
def dot : CStr := ⟨[0x2E], by decide⟩

/-- The name `".."`. -/
def dotdot : CStr := ⟨[0x2E, 0x2E], by decide⟩

/-- `memfs_readdir`: the names passed to `filler`, in order. -/
def memfsReaddir (t : Table) (path : CStr) : Int × List CStr :=
  (0, dot :: dotdot :: (List.finRange maxFiles).filterMap fun i => readdirEmit path (t i))

/-- `memfs_create` -/
def memfsCreate (env : Env) (t : Table) (path : CStr) (mode : Nat) : Int × Table :=
  match findEntry t path with
  | some _ => (-EEXIST, t)
  | none =>
    match allocEntry env t with
    | none => (-ENOSPC, t)
    | some (i, t') =>
      (0, Function.update t' i
        { t' i with
          name := strncpy path maxNameLen, isDir := false, mode := mode &&& 0o777, uid := env.uid,
          gid := env.gid, data := none, size := 0 })

/-- `memfs_open` -/
def memfsOpen (t : Table) (path : CStr) : Int :=
  match findEntry t path with
  | none => -ENOENT
  | some _ => 0

/-- `memfs_read`: the return code and the bytes copied to `buf`. -/
def memfsRead (env : Env) (t : Table) (path : CStr) (size : Nat) (offset : Int) :
    Option (Int × List UInt8 × Table) :=
  match findEntry t path with
  | none => some (-ENOENT, [], t)
  | some i =>
    let e := t i
    if offset ≥ offT e.size then some (0, [], t)
    else
      let size := if sizeT (offset + size) > e.size then sizeT (e.size - offset) else size
      match memcpyFrom e.data offset size with
      | none => none
      | some bytes => some (cInt size, bytes, Function.update t i { e with atime := env.now })

/-- `memfs_write` -/
def memfsWrite (env : Env) (t : Table) (path : CStr) (buf : List UInt8) (offset : Int) :
    Option (Int × Table) :=
  match findEntry t path with
  | none => some (-ENOENT, t)
  | some i =>
    let e := t i
    let newSize := sizeT (offset + buf.length)
    if newSize > maxDataSize then some (-ENOSPC, t)
    else if newSize > e.size then
      let data := realloc env.heap e.data newSize
      if data = none then some (-ENOMEM, Function.update t i { e with data := none })
      else do
        -- zero-fill the gap if the write starts past the old size
        let data ← (if offset > offT e.size then memset data e.size 0 (sizeT (offset - e.size))
          else some data)
        let data ← memcpyTo data offset buf
        some (cInt buf.length,
          Function.update t i { e with data := data, size := newSize, mtime := env.now })
    else do
      let data ← memcpyTo e.data offset buf
      some (cInt buf.length, Function.update t i { e with data := data, mtime := env.now })

/-- `memfs_mkdir` -/
def memfsMkdir (env : Env) (t : Table) (path : CStr) (mode : Nat) : Int × Table :=
  match findEntry t path with
  | some _ => (-EEXIST, t)
  | none =>
    match allocEntry env t with
    | none => (-ENOSPC, t)
    | some (i, t') =>
      (0, Function.update t' i
        { t' i with
          name := strncpy path maxNameLen, isDir := true, mode := mode &&& 0o777, uid := env.uid,
          gid := env.gid })

/-- `memfs_unlink`; the freed block is out of reach, since `used` guards the entry. -/
def memfsUnlink (t : Table) (path : CStr) : Int × Table :=
  match findEntry t path with
  | none => (-ENOENT, t)
  | some i =>
    if (t i).isDir then (-EISDIR, t)
    else (0, Function.update t i { t i with used := false })

/-- The test by which one round of the loop of `memfs_rmdir` for entry `i` returns `-ENOTEMPTY`. -/
def rmdirBlocks (t : Table) (path : CStr) (i j : Fin maxFiles) : Bool :=
  (t j).used && decide (j ≠ i) && decide (strncmp (t j).name path (strlen path) = 0) &&
    decide ((t j).name.charAt (strlen path) = slash)

/-- `memfs_rmdir` -/
def memfsRmdir (t : Table) (path : CStr) : Int × Table :=
  match findEntry t path with
  | none => (-ENOENT, t)
  | some i =>
    if !(t i).isDir then (-ENOTDIR, t)
    else if (List.finRange maxFiles).any fun j => rmdirBlocks t path i j then (-ENOTEMPTY, t)
    else (0, Function.update t i { t i with used := false })

/-- `memfs_truncate` -/
def memfsTruncate (env : Env) (t : Table) (path : CStr) (size : Int) : Option (Int × Table) :=
  match findEntry t path with
  | none => some (-ENOENT, t)
  | some i =>
    let e := t i
    if sizeT size > maxDataSize then some (-ENOSPC, t)
    else do
      let data := realloc env.heap e.data (sizeT size)
      let data ← (if size > offT e.size then memset data e.size 0 (sizeT (size - e.size))
        else some data)
      some (0, Function.update t i { e with data := data, size := sizeT size, mtime := env.now })

/-! ## One call at a time -/

/-- The calls that read or change files and directories, with their arguments; the buffer of a
write has `size` bytes. -/
inductive Op where
  | create (path : CStr) (mode : Nat)
  | mkdir (path : CStr) (mode : Nat)
  | write (path : CStr) (buf : List UInt8) (offset : Int)
  | read (path : CStr) (size : Nat) (offset : Int)
  | truncate (path : CStr) (size : Int)
  | unlink (path : CStr)
  | rmdir (path : CStr)

/-- The calls that only look at the table. -/
inductive Query where
  | getattr (path : CStr)
  | readdir (path : CStr)
  | openFile (path : CStr)

/-- What a handler hands back besides its return code. -/
inductive Output where
  | nothing
  | bytes (bs : List UInt8)
  | stat (st : Option Stat)
  | names (ns : List CStr)
deriving DecidableEq

/-- The answer to a call. -/
structure Reply where
  ret : Int
  out : Output
deriving DecidableEq

/-- A call of one of the handlers that read or change files and directories. -/
structure OpCall where
  op : Op
  env : Env

/-- The handlers that read or change files and directories. -/
def opStep : Machine.Step Table OpCall Reply := fun t c =>
  match c.op with
  | .create path mode => let r := memfsCreate c.env t path mode; some (⟨r.1, .nothing⟩, r.2)
  | .mkdir path mode => let r := memfsMkdir c.env t path mode; some (⟨r.1, .nothing⟩, r.2)
  | .write path buf offset =>
    (memfsWrite c.env t path buf offset).map fun r => (⟨r.1, .nothing⟩, r.2)
  | .read path size offset =>
    (memfsRead c.env t path size offset).map fun r => (⟨r.1, .bytes r.2.1⟩, r.2.2)
  | .truncate path size =>
    (memfsTruncate c.env t path size).map fun r => (⟨r.1, .nothing⟩, r.2)
  | .unlink path => let r := memfsUnlink t path; some (⟨r.1, .nothing⟩, r.2)
  | .rmdir path => let r := memfsRmdir t path; some (⟨r.1, .nothing⟩, r.2)

/-- The handlers that only look at the table. -/
def query (env : Env) (t : Table) : Query → Reply
  | .getattr path => let r := memfsGetattr env t path; ⟨r.1, .stat r.2⟩
  | .readdir path => let r := memfsReaddir t path; ⟨r.1, .names r.2⟩
  | .openFile path => ⟨memfsOpen t path, .nothing⟩

/-- A call of any handler of `memfs_ops`. -/
inductive Call where
  | op (c : OpCall)
  | query (q : Query) (env : Env)

/-- One call of any handler. -/
def step : Machine.Step Table Call Reply := fun t c =>
  match c with
  | .op c => opStep t c
  | .query q env => some (query env t q, t)

end Memfs
