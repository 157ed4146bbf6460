import LinuxHandson.Memfs.Memfs

/-!
# Calls that fail

What a caller of `memfs` expects of a call that does not succeed, and the calls in which `realloc` fails.
`memfs_write` and `memfs_truncate` store what `realloc` returns over the pointer that it was given.
-/

namespace Memfs

open CLib

/-- What the kernel guarantees of the arguments of a call: no negative offset or size, buffers that are C
objects, and writes of at least one byte. -/
def KernelArgs (c : OpCall) : Prop :=
  match c.op with
  | .write _ buf off => 1 ≤ buf.length ∧ buf.length < 2 ^ 63 ∧ 0 ≤ off ∧ off < 2 ^ 63
  | .read _ size off => size < 2 ^ 63 ∧ 0 ≤ off ∧ off < 2 ^ 63
  | .truncate _ size => 0 ≤ size ∧ size < 2 ^ 63
  | _ => True

instance (c : OpCall) : Decidable (KernelArgs c) :=
  match c with
  | ⟨.write _ buf off, _⟩ =>
    inferInstanceAs (Decidable (1 ≤ buf.length ∧ buf.length < 2 ^ 63 ∧ 0 ≤ off ∧ off < 2 ^ 63))
  | ⟨.read _ size off, _⟩ => inferInstanceAs (Decidable (size < 2 ^ 63 ∧ 0 ≤ off ∧ off < 2 ^ 63))
  | ⟨.truncate _ size, _⟩ => inferInstanceAs (Decidable (0 ≤ size ∧ size < 2 ^ 63))
  | ⟨.create .., _⟩ | ⟨.mkdir .., _⟩ | ⟨.unlink .., _⟩ | ⟨.rmdir .., _⟩ =>
    inferInstanceAs (Decidable True)

/-- The entry whose block a call passes to `realloc`, and the size that it asks for. -/
def reallocs (t : Table) (c : OpCall) : Option (Fin maxFiles × Nat) :=
  match c.op with
  | .write p buf off =>
    (findEntry t p).bind fun i =>
      if sizeT (off + buf.length) ≤ maxDataSize ∧ (t i).size < sizeT (off + buf.length) then
        some (i, sizeT (off + buf.length))
      else none
  | .truncate p size =>
    (findEntry t p).bind fun i => if sizeT size ≤ maxDataSize then some (i, sizeT size) else none
  | _ => none

/-- The call asks `realloc` for some bytes and does not get them. -/
def ReallocFails (t : Table) (c : OpCall) : Prop :=
  ∃ i n, reallocs t c = some (i, n) ∧ 0 < n ∧ c.env.heap.ok = false

/-- The tables have the same entries: names, kinds, sizes and all else agree, and so do the contents of
each file, though an empty one may have a block or none. -/
def SameEntries (t t' : Table) : Prop :=
  ∀ i, ∃ d, t' i = { t i with data := d } ∧ contents d = contents (t i).data

/-- No later calls can tell the tables apart. -/
def SameReplies (t t' : Table) : Prop :=
  ∀ cs : List OpCall, (∀ c ∈ cs, KernelArgs c) →
    (Machine.exec opStep t' cs).map Prod.fst = (Machine.exec opStep t cs).map Prod.fst

/-- The call returns, and if it does not succeed it returns a negative error and leaves all entries as
they were, so that every later call gets the reply that it would have got. -/
def FailsCleanly (t : Table) (c : OpCall) : Prop :=
  ∃ r t', opStep t c = some (r, t') ∧
    (r.ret < 0 ∨ ReallocFails t c → r.ret < 0 ∧ SameEntries t t' ∧ SameReplies t t')

/-- If `realloc` fails in the call, the call is a write to a file that is still empty. -/
def Harmless (t : Table) (c : OpCall) : Prop :=
  ReallocFails t c →
    ∃ p buf off i, c.op = .write p buf off ∧ findEntry t p = some i ∧ (t i).size = 0

end Memfs
