import LinuxHandson.Lib.CString
import LinuxHandson.Lib.Prog

/-!
# A file read through `<stdio.h>`

A file of bytes that does not change, and the calls of the C library with hidden state that read
it: the position of the `FILE`, and the pointer that `strtok` keeps between its calls.
-/

namespace CLib

/-- The bytes of a file: those from `size` on are not part of it. -/
structure Image where
  size : Nat
  byte : Nat → UInt8

/-- The `n` bytes from `off`. -/
def Image.slice (img : Image) : Nat → Nat → List UInt8
  | _, 0 => []
  | off, n + 1 => img.byte off :: img.slice (off + 1) n

/-- A file that holds some parts, each at its offset, and zeros elsewhere. -/
def Image.sparse (size : Nat) (parts : List (Nat × List UInt8)) : Image where
  size := size
  byte i :=
    match parts.find? fun p => p.1 ≤ i ∧ i < p.1 + p.2.length with
    | some p => p.2.getD (i - p.1) 0
    | none => 0

/-- What a read of at most `n` bytes at position `off` finds. -/
def Image.read (img : Image) (off n : Nat) : List UInt8 := img.slice off (min n (img.size - off))

/-- The calls: `fseek(fp, off, SEEK_SET)`, `fread(buf, size, n, fp)`, and `strtok` on a string or on
`NULL`. -/
inductive LibCall where
  | fseek (off : Nat)
  | fread (size n : Nat)
  | strtok (s : Option CStr) (delim : UInt8)

/-- What a call answers: `fread` the bytes it has stored, `strtok` the token. -/
@[reducible] def LibCall.Res : LibCall → Type
  | .fseek _ => Unit
  | .fread _ _ => List UInt8
  | .strtok _ _ => Option CStr

/-- The hidden state: the position of the file, and the string that `strtok`'s pointer leads to. -/
structure Stdio where
  pos : Nat
  save : CStr
deriving DecidableEq

/-- How the library answers a call on the file `img`. -/
def stdio (img : Image) : Prog.Handler LibCall LibCall.Res Stdio
  | .fseek off, s => ((), { s with pos := off })
  | .fread size n, s =>
    let b := img.read s.pos (size * n)
    (b, { s with pos := s.pos + b.length })
  | .strtok (some t) c, s => ((CLib.strtok t c).1, { s with save := (CLib.strtok t c).2 })
  | .strtok none c, s => ((CLib.strtok s.save c).1, { s with save := (CLib.strtok s.save c).2 })

/-- A program over these calls. -/
abbrev StdioProg := Prog LibCall LibCall.Res

/-- `fseek(f, off, SEEK_SET)` -/
def fseek (off : Nat) : StdioProg Unit := .ask (LibCall.fseek off)

/-- `fread(ptr, size, n, f)` -/
def fread (size n : Nat) : StdioProg (List UInt8) := .ask (LibCall.fread size n)

/-- `strtok(s, delim)`; `none` stands for `NULL`. -/
def strtokCall (s : Option CStr) (delim : UInt8) : StdioProg (Option CStr) :=
  .ask (LibCall.strtok s delim)

namespace Image

variable (img : Image)

@[simp] theorem length_slice (off n : Nat) : (img.slice off n).length = n := by
  induction n generalizing off with
  | zero => rfl
  | succ n ih => simp [slice, ih]

theorem slice_add (off m n : Nat) :
    img.slice off (m + n) = img.slice off m ++ img.slice (off + m) n := by
  induction m generalizing off with
  | zero => rw [Nat.zero_add, slice, List.nil_append, Nat.add_zero]
  | succ m ih =>
    rw [Nat.succ_add, slice, slice, ih, List.cons_append, Nat.succ_add_eq_add_succ]

theorem take_drop_slice {off n i k : Nat} (h : i + k ≤ n) :
    ((img.slice off n).drop i).take k = img.slice (off + i) k := by
  obtain ⟨r, rfl⟩ := Nat.exists_eq_add_of_le h
  have hi : (img.slice off i).length = i := img.length_slice off i
  have hk : (img.slice (off + i) k).length = k := img.length_slice (off + i) k
  rw [Nat.add_assoc, slice_add, slice_add, List.drop_left' hi, List.take_left' hk]

/-- A slice whose bytes are known one by one. -/
theorem slice_eq {img : Image} {off : Nat} {l : List UInt8}
    (h : ∀ j < l.length, img.byte (off + j) = l.getD j 0) : img.slice off l.length = l := by
  induction l generalizing off with
  | nil => rfl
  | cons b l ih =>
    have hb : img.byte off = b := h 0 (Nat.succ_pos _)
    rw [List.length_cons, slice, hb, ih]
    intro j hj
    rw [Nat.add_assoc, Nat.add_comm 1 j]
    exact h (j + 1) (Nat.succ_lt_succ hj)

theorem read_of_le {off n : Nat} (h : off + n ≤ img.size) : img.read off n = img.slice off n := by
  rw [read, Nat.min_eq_left (by omega)]

theorem length_read (off n : Nat) : (img.read off n).length = min n (img.size - off) :=
  img.length_slice _ _

end Image

section Answers

variable (img : Image) (s : Stdio)

@[simp] theorem run_fseek (off : Nat) :
    (fseek off).run (stdio img) s = some ((), { s with pos := off }) := rfl

@[simp] theorem run_fread (size n : Nat) :
    (fread size n).run (stdio img) s =
      some (img.read s.pos (size * n),
        { s with pos := s.pos + (img.read s.pos (size * n)).length }) := rfl

@[simp] theorem run_strtok_some (t : CStr) (c : UInt8) :
    (strtokCall (some t) c).run (stdio img) s =
      some ((strtok t c).1, { s with save := (strtok t c).2 }) := rfl

@[simp] theorem run_strtok_none (c : UInt8) :
    (strtokCall none c).run (stdio img) s =
      some ((strtok s.save c).1, { s with save := (strtok s.save c).2 }) := rfl

end Answers

/-! ## Callers at the same time -/

/-- The hidden state when several callers share it. The pointer that `strtok` keeps leads into the
string that some caller passed: `owner` is that caller. -/
structure SharedStdio (ι : Type) extends Stdio where
  owner : Option ι
deriving DecidableEq

/-- How the library answers a call of `i`. It does not tell callers apart: `strtok(NULL)` goes on in
the string that was passed last, whoever passed it, and leaves the pointer in that string. -/
def sharedStdio {ι : Type} (img : Image) (i : ι) :
    Prog.Handler LibCall LibCall.Res (SharedStdio ι)
  | .strtok (some t) c, s =>
    let r := stdio img (.strtok (some t) c) s.toStdio
    (r.1, { toStdio := r.2, owner := some i })
  | op, s =>
    let r := stdio img op s.toStdio
    (r.1, { toStdio := r.2, owner := s.owner })

/-- A call of `i` finds what it reads of the state as its own calls have left it: `fread` the
position, and `strtok(NULL, ..)` the kept pointer, which leads into a string of `i` itself and to
the same place there. A string of another caller may be gone by then. -/
def SameFor {ι : Type} (i : ι) : LibCall → SharedStdio ι → Stdio → Prop
  | .fseek _, _, _ => True
  | .fread _ _, s, t => s.pos = t.pos
  | .strtok (some _) _, _, _ => True
  | .strtok none _, s, t => s.owner = some i ∧ s.save = t.save

instance {ι : Type} [DecidableEq ι] (i : ι) :
    ∀ (op : LibCall) (s : SharedStdio ι) (t : Stdio), Decidable (SameFor i op s t)
  | .fseek _, _, _ => isTrue trivial
  | .fread _ _, s, t => inferInstanceAs (Decidable (s.pos = t.pos))
  | .strtok (some _) _, _, _ => isTrue trivial
  | .strtok none _, s, t => inferInstanceAs (Decidable (s.owner = some i ∧ s.save = t.save))

theorem sharedStdio_sameFor {ι : Type} (img : Image) (i : ι) (op : LibCall) (s : SharedStdio ι)
    (t : Stdio) (h : SameFor i op s t) : (sharedStdio img i op s).1 = (stdio img op t).1 := by
  cases op with
  | fseek off => rfl
  | fread size n => exact congrArg (fun p => img.read p (size * n)) h
  | strtok u c =>
    cases u with
    | some u => rfl
    | none => exact congrArg (fun x => (CLib.strtok x c).1) h.2

end CLib
