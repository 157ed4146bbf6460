import Mathlib.Data.Finmap
import LinuxHandson.Memfs.Memfs
import LinuxHandson.Memfs.Paths

/-!
# The reference filesystem

What `memfs` is for: a finite map from paths to directories and byte strings. It has no slots, no
heap and no stale bytes; a file is exactly its contents.
-/

namespace Memfs

open CLib

/-- The contents of a regular file, at most 1 MB of it. -/
structure FileData where
  bytes : List UInt8
  length_le : bytes.length ≤ maxDataSize

/-- What a path stands for. -/
inductive Node where
  | dir
  | file (d : FileData)

/-- A filesystem: at most 64 paths. -/
structure RefFS where
  nodes : Finmap fun _ : CStr => Node
  card_le : nodes.keys.card ≤ maxFiles

/-- The contents `b` cut or extended with zeros to length `n`. -/
def resize (b : List UInt8) (n : Nat) : List UInt8 := b.take n ++ List.replicate (n - b.length) 0

/-- The contents `b` after `src` has been written at `off`: a gap is filled with zeros. -/
def pwrite (b : List UInt8) (off : Nat) (src : List UInt8) : List UInt8 :=
  b.take off ++ List.replicate (off - b.length) 0 ++ src ++ b.drop (off + src.length)

/-- The contents read at `off`, at most `n` bytes. -/
def pread (b : List UInt8) (off n : Nat) : List UInt8 := (b.drop off).take n

theorem length_resize (b : List UInt8) (n : Nat) : (resize b n).length = n := by
  simp only [resize, List.length_append, List.length_take, List.length_replicate]
  omega

/-- A resized file keeps the bytes below both sizes and is zero from its old end on: what an
earlier shrink cut off does not come back. -/
theorem getElem?_resize (b : List UInt8) (n i : Nat) :
    (resize b n)[i]? = if i < n then some (b.getD i 0) else none := by
  unfold resize
  by_cases hn : i < n
  · rw [if_pos hn]
    by_cases hb : i < b.length
    · rw [List.getElem?_append_left (by rw [List.length_take]; omega), List.getElem?_take_of_lt hn,
        List.getD_eq_getElem?_getD, List.getElem?_eq_getElem hb]
      rfl
    · rw [List.getElem?_append_right (by rw [List.length_take]; omega), List.getElem?_replicate,
        if_pos (by rw [List.length_take]; omega), List.getD_eq_getElem?_getD,
        List.getElem?_eq_none (by omega)]
      rfl
  · rw [if_neg hn, List.getElem?_eq_none]
    have := length_resize b n
    unfold resize at this
    omega

/-- A written file holds the new bytes where they were written, zeros in a gap before them, and
its old bytes elsewhere. -/
theorem getElem?_pwrite (b : List UInt8) (off : Nat) (src : List UInt8) (i : Nat) :
    (pwrite b off src)[i]? =
      if off ≤ i ∧ i < off + src.length then src[i - off]?
      else if i < max b.length off then some (b.getD i 0) else none := by
  have hpad : (b.take off ++ List.replicate (off - b.length) 0) = resize b off := rfl
  have hlen := length_resize b off
  unfold pwrite
  rw [hpad]
  by_cases h1 : i < off
  · rw [List.append_assoc, List.getElem?_append_left (by omega), getElem?_resize, if_pos h1,
      if_neg (by omega), if_pos (by omega)]
  · by_cases h2 : i < off + src.length
    · rw [List.getElem?_append_left (by rw [List.length_append]; omega),
        List.getElem?_append_right (by omega), hlen, if_pos ⟨by omega, h2⟩]
    · rw [List.getElem?_append_right (by rw [List.length_append]; omega), if_neg (by omega),
        List.getElem?_drop, List.length_append, hlen]
      have hi : off + src.length + (i - (off + src.length)) = i := by omega
      rw [hi]
      by_cases hb : i < b.length
      · rw [if_pos (by omega), List.getD_eq_getElem?_getD, List.getElem?_eq_getElem hb]
        rfl
      · rw [if_neg (by omega), List.getElem?_eq_none (by omega)]

/-- `q` lies below the directory `p`. -/
def Below (p q : CStr) : Prop := p.bytes ++ [slash] <+: q.bytes
deriving Decidable

namespace RefFS

/-- The filesystem without any path. -/
def empty : RefFS where
  nodes := ∅
  card_le := Nat.zero_le _

/-- The node at a path. -/
def lookup (fs : RefFS) (p : CStr) : Option Node := fs.nodes.lookup p

/-- A new path. -/
def add (fs : RefFS) (p : CStr) (n : Node) (h : fs.nodes.keys.card < maxFiles) : RefFS where
  nodes := fs.nodes.insert p n
  card_le := by
    have : (fs.nodes.insert p n).keys ⊆ insert p fs.nodes.keys := by
      intro q hq
      rw [Finset.mem_insert, Finmap.mem_keys]
      exact Finmap.mem_insert.mp (Finmap.mem_keys.mp hq)
    exact (Finset.card_le_card this).trans ((Finset.card_insert_le _ _).trans h)

/-- A path gets another node. -/
def replace (fs : RefFS) (p : CStr) (n : Node) (h : p ∈ fs.nodes) : RefFS where
  nodes := fs.nodes.insert p n
  card_le := by
    have : (fs.nodes.insert p n).keys ⊆ fs.nodes.keys := by
      intro q hq
      rcases Finmap.mem_insert.mp (Finmap.mem_keys.mp hq) with rfl | hq
      · exact Finmap.mem_keys.mpr h
      · exact Finmap.mem_keys.mpr hq
    exact (Finset.card_le_card this).trans fs.card_le

/-- A path disappears. -/
def remove (fs : RefFS) (p : CStr) : RefFS where
  nodes := fs.nodes.erase p
  card_le := by
    rw [Finmap.keys_erase]
    exact (Finset.card_erase_le).trans fs.card_le

/-- `create` and `mkdir`: a new path with node `n`. -/
def make (fs : RefFS) (p : CStr) (n : Node) : Int × RefFS :=
  if p ∈ fs.nodes then (-EEXIST, fs)
  else if h : fs.nodes.keys.card < maxFiles then (0, fs.add p n h)
  else (-ENOSPC, fs)

/-- The contents of the file at `p`, or the error of an access to it. -/
def fileAt (fs : RefFS) (p : CStr) : Except Int FileData :=
  match fs.lookup p with
  | none => .error (-ENOENT)
  | some .dir => .error (-EISDIR)
  | some (.file d) => .ok d

/-- The file at `p`, if it is one, gets the contents `b`. -/
def setBytes (fs : RefFS) (p : CStr) (b : List UInt8) : RefFS :=
  if h : p ∈ fs.nodes ∧ b.length ≤ maxDataSize then fs.replace p (.file ⟨b, h.2⟩) h.1 else fs

/-- One call. -/
def step (fs : RefFS) (c : OpCall) : Reply × RefFS :=
  match c.op with
  | .create p _ => let r := fs.make p (.file ⟨[], Nat.zero_le _⟩); (⟨r.1, .nothing⟩, r.2)
  | .mkdir p _ => let r := fs.make p .dir; (⟨r.1, .nothing⟩, r.2)
  | .write p buf off =>
    match fs.fileAt p with
    | .error e => (⟨e, .nothing⟩, fs)
    | .ok d =>
      if off.toNat + buf.length > maxDataSize then (⟨-ENOSPC, .nothing⟩, fs)
      else (⟨buf.length, .nothing⟩, fs.setBytes p (pwrite d.bytes off.toNat buf))
  | .read p size off =>
    match fs.fileAt p with
    | .error e => (⟨e, .bytes []⟩, fs)
    | .ok d =>
      let bs := pread d.bytes off.toNat size
      (⟨bs.length, .bytes bs⟩, fs)
  | .truncate p size =>
    match fs.fileAt p with
    | .error e => (⟨e, .nothing⟩, fs)
    | .ok d =>
      if size.toNat > maxDataSize then (⟨-ENOSPC, .nothing⟩, fs)
      else (⟨0, .nothing⟩, fs.setBytes p (resize d.bytes size.toNat))
  | .unlink p =>
    match fs.lookup p with
    | none => (⟨-ENOENT, .nothing⟩, fs)
    | some .dir => (⟨-EISDIR, .nothing⟩, fs)
    | some (.file _) => (⟨0, .nothing⟩, fs.remove p)
  | .rmdir p =>
    match fs.lookup p with
    | none => (⟨-ENOENT, .nothing⟩, fs)
    | some (.file _) => (⟨-ENOTDIR, .nothing⟩, fs)
    | some .dir =>
      if ∃ q ∈ fs.nodes.keys, Below p q then (⟨-ENOTEMPTY, .nothing⟩, fs)
      else (⟨0, .nothing⟩, fs.remove p)

/-- The path a call is about. -/
def pathOf : Op → CStr
  | .create p _ => p
  | .mkdir p _ => p
  | .write p _ _ => p
  | .read p _ _ => p
  | .truncate p _ => p
  | .unlink p => p
  | .rmdir p => p

theorem lookup_setBytes_of_ne {fs : RefFS} {p q : CStr} {b : List UInt8} (hq : q ≠ p) :
    (fs.setBytes p b).lookup q = fs.lookup q := by
  unfold setBytes
  split
  · exact Finmap.lookup_insert_of_ne _ hq
  · rfl

end RefFS

/-! ## With attributes -/

/-- The length of the file at `p`. -/
def RefFS.size (fs : RefFS) (p : CStr) : Nat :=
  match fs.lookup p with
  | some (.file d) => d.bytes.length
  | _ => 0

/-- What is known of a path besides its kind and its contents. -/
structure Attrs where
  mode : Nat
  uid : Nat
  gid : Nat
  atime : Int
  mtime : Int
  ctime : Int

/-- A filesystem whose paths have attributes; those of a path that is not there mean nothing. -/
structure InodeFS where
  fs : RefFS
  attrs : CStr → Attrs

namespace InodeFS

/-- No path is there. -/
def empty : InodeFS where
  fs := .empty
  attrs := fun _ => ⟨0, 0, 0, 0, 0, 0⟩

/-- The attributes of a new path. -/
def born (env : Env) (mode : Nat) : Attrs :=
  ⟨mode &&& 0o777, env.uid, env.gid, env.now, env.now, env.now⟩

/-- What a call that succeeds makes of the attributes of its path, a file of `n` bytes. -/
def touched (env : Env) (n : Nat) (a : Attrs) : Op → Attrs
  | .create _ mode => born env mode
  | .mkdir _ mode => born env mode
  | .write _ _ _ => { a with mtime := env.now }
  -- at the end of the file nothing is read
  | .read _ _ off => if off.toNat < n then { a with atime := env.now } else a
  | .truncate _ _ => { a with mtime := env.now }
  | .unlink _ => a
  | .rmdir _ => a

/-- The attributes after a call with the return code `ret`. -/
def attrsAfter (s : InodeFS) (c : OpCall) (ret : Int) : CStr → Attrs :=
  let p := RefFS.pathOf c.op
  if 0 ≤ ret then Function.update s.attrs p (touched c.env (s.fs.size p) (s.attrs p) c.op)
  else s.attrs

/-- One call that reads or changes files and directories. -/
def next (s : InodeFS) (c : OpCall) : Reply × InodeFS :=
  let r := s.fs.step c
  (r.1, ⟨r.2, s.attrsAfter c r.1.ret⟩)

/-- What `stat` tells of a node with these attributes. -/
def statOf (a : Attrs) : Node → Stat
  | .dir => ⟨sIfdir ||| a.mode, 2, a.uid, a.gid, 0, a.atime, a.mtime, a.ctime⟩
  | .file d => ⟨sIfreg ||| a.mode, 1, a.uid, a.gid, d.bytes.length, a.atime, a.mtime, a.ctime⟩

/-- The answers to a call that only looks. A directory is listed in any order. -/
inductive Answers (s : InodeFS) (env : Env) : Query → Reply → Prop where
  | statRoot : s.Answers env (.getattr root)
      ⟨0, .stat (some ⟨sIfdir ||| 0o755, 2, env.uid, env.gid, 0, 0, 0, 0⟩)⟩
  | stat {p : CStr} {n : Node} (hp : p ≠ root) (h : s.fs.lookup p = some n) :
    s.Answers env (.getattr p) ⟨0, .stat (some (statOf (s.attrs p) n))⟩
  | statNone {p : CStr} (hp : p ≠ root) (h : s.fs.lookup p = none) :
    s.Answers env (.getattr p) ⟨-ENOENT, .stat none⟩
  | readdir {d : CStr} {ns : List CStr} (hnodup : ns.Nodup)
      (h : ∀ n, n ∈ ns ↔ ∃ q ∈ s.fs.nodes, IsEntry d n.bytes q) :
    s.Answers env (.readdir d) ⟨0, .names (dot :: dotdot :: ns)⟩
  | opened {p : CStr} (h : p ∈ s.fs.nodes) : s.Answers env (.openFile p) ⟨0, .nothing⟩
  | notOpened {p : CStr} (h : p ∉ s.fs.nodes) : s.Answers env (.openFile p) ⟨-ENOENT, .nothing⟩

/-- One call of any handler. -/
inductive Step (s : InodeFS) : Call → Reply → InodeFS → Prop where
  | op (c : OpCall) : s.Step (.op c) (s.next c).1 (s.next c).2
  | query {q : Query} {env : Env} {r : Reply} (h : s.Answers env q r) : s.Step (.query q env) r s

end InodeFS

end Memfs
