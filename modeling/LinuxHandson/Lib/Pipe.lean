import LinuxHandson.Lib.Process

/-!
# Pipes

Pipes as what descriptors of processes stand for. A read of an empty pipe waits while a process holds
the other end, and is at the end of the file when none does; a write to a pipe whose read end nobody
holds ends the process. Beside a pipe stands what has gone in and what has come out, which no process
reads.
-/

namespace Pipe

open Process

variable {ι κ ν ℓ : Type}

/-- What a descriptor stands for. -/
inductive Obj (κ : Type) where
  | terminal
  | reader (p : κ)
  | writer (p : κ)
deriving DecidableEq

/-- What a pipe holds. -/
structure Content where
  buf : List UInt8
  sent : List UInt8
  got : List UInt8

/-- The bytes for which a pipe has room. -/
def capacity : Nat := 65536

namespace Content

/-- A pipe that nothing has gone through. -/
def empty : Content := ⟨[], [], []⟩

/-- A write of these bytes. -/
def put (c : Content) (bytes : List UInt8) : Content :=
  { c with buf := c.buf ++ bytes, sent := c.sent ++ bytes }

/-- A read of at most `count` bytes. -/
def take (c : Content) (count : Nat) : Content :=
  { c with buf := c.buf.drop count, got := c.got ++ c.buf.take count }

/-- What has gone in comes out in its order. -/
structure Wf (c : Content) : Prop where
  sent : c.sent = c.got ++ c.buf
  room : c.buf.length ≤ capacity

theorem wf_empty : Wf empty := ⟨rfl, Nat.zero_le _⟩

theorem Wf.put {c : Content} (h : c.Wf) {bytes : List UInt8}
    (hroom : c.buf.length + bytes.length ≤ capacity) : (c.put bytes).Wf where
  sent := by
    change c.sent ++ bytes = c.got ++ (c.buf ++ bytes)
    rw [h.sent, List.append_assoc]
  room := by
    change (c.buf ++ bytes).length ≤ capacity
    rw [List.length_append]
    exact hroom

theorem Wf.take {c : Content} (h : c.Wf) (count : Nat) : (c.take count).Wf where
  sent := by
    change c.sent = c.got ++ c.buf.take count ++ c.buf.drop count
    rw [List.append_assoc, List.take_append_drop, h.sent]
  room := by
    change (c.buf.drop count).length ≤ capacity
    rw [List.length_drop]
    exact Nat.le_trans (Nat.sub_le _ _) h.room

/-- At the end of the file all has come out. -/
theorem Wf.all {c : Content} (h : c.Wf) (hbuf : c.buf = []) : c.got = c.sent := by
  rw [h.sent, hbuf, List.append_nil]

end Content

/-- The pipes, and what has been printed. -/
structure World (κ ν : Type) where
  pipe : κ → Content
  printed : List ν

namespace World

/-- Empty pipes, and nothing printed. -/
def start : World κ ν := ⟨fun _ => .empty, []⟩

/-- A line is printed. -/
def print (s : World κ ν) (line : ν) : World κ ν := { s with printed := s.printed ++ [line] }

variable [DecidableEq κ]

/-- The content of the pipe `p` is changed. -/
def set (s : World κ ν) (p : κ) (c : Content) : World κ ν :=
  { s with pipe := Function.update s.pipe p c }

@[simp] theorem set_pipe_self (s : World κ ν) (p : κ) (c : Content) : (s.set p c).pipe p = c :=
  Function.update_self ..

end World

/-- What a system call of a process does. -/
abbrev Call (κ ν ℓ : Type) :=
  (Obj κ → Bool) → Nat → Fds (Obj κ) → World κ ν → Option (Option ℓ × Fds (Obj κ) × World κ ν)

/-- `close(fd)` -/
def close (fd : Nat) (next : ℓ) : Call κ ν ℓ := fun _ _ fds s => some (some next, fds.close fd, s)

/-- `dup2(oldfd, newfd)` -/
def dup2 (oldfd newfd : Nat) (next : ℓ) : Call κ ν ℓ := fun _ _ fds s =>
  some (some next, fds.dup2 oldfd newfd, s)

/-- `printf` -/
def printf (line : ν) (next : ℓ) : Call κ ν ℓ := fun _ _ fds s => some (some next, fds, s.print line)

/-- A step after which the process is at `yes` or at `no`, as the environment chooses. -/
def either (yes no : ℓ) : Call κ ν ℓ := fun _ choice fds s =>
  some (some (if choice = 0 then no else yes), fds, s)

section Calls

variable [DecidableEq κ]

/-- `pipe(pipefd)`, which makes the pipe `p`. -/
def create (p : κ) (next : Nat × Nat → ℓ) : Call κ ν ℓ := fun _ _ fds s =>
  let (r, fds₁) := fds.add (.reader p)
  let (w, fds₂) := fds₁.add (.writer p)
  some (some (next (r, w)), fds₂, s.set p .empty)

/-- `read(fd, buf, count)`, for which no bytes are the end of the file. -/
def read (fd count : Nat) (next : List UInt8 → ℓ) : Call κ ν ℓ := fun isOpen _ fds s =>
  match fds.get fd with
  | some (.reader p) =>
    if (s.pipe p).buf = [] then
      if isOpen (.writer p) then none else some (some (next []), fds, s)
    else some (some (next ((s.pipe p).buf.take count)), fds, s.set p ((s.pipe p).take count))
  | _ => none

/-- Any number of the bytes `rest` goes in, as the writer and the kernel cut them. -/
def writeSome (fd : Nat) (rest : List UInt8) (next : List UInt8 → ℓ) : Call κ ν ℓ :=
  fun isOpen choice fds s =>
    match fds.get fd with
    | some (.writer p) =>
      if isOpen (.reader p) then
        if choice ≠ 0 ∧ choice ≤ rest.length ∧ (s.pipe p).buf.length + choice ≤ capacity then
          some (some (next (rest.drop choice)), fds, s.set p ((s.pipe p).put (rest.take choice)))
        else none
      else some (none, fds, s)
    | _ => none

end Calls

/-! ## The steps of the calls -/

section Moves

variable [DecidableEq ι] [DecidableEq κ] {code : ι → ℓ → Act ι (Obj κ) ℓ (World κ ν)}
  {S S' : State ι (Obj κ) ℓ (World κ ν)} {i : ι} {l : ℓ} {fds : Fds (Obj κ)}

theorem close_move {fd : Nat} {next : ℓ} (hc : code i l = .sys (close fd next))
    (hm : Move code (fun _ _ => none) S i l fds S') : S' = S.set i (.running next (fds.close fd)) := by
  obtain ⟨k, fds', s, ⟨hf, -⟩ | ⟨l', hf, rfl⟩⟩ := hm.of_sys hc
  · cases hf
  · cases hf
    rfl

theorem dup2_move {oldfd newfd : Nat} {next : ℓ} (hc : code i l = .sys (dup2 oldfd newfd next))
    (hm : Move code (fun _ _ => none) S i l fds S') :
    S' = S.set i (.running next (fds.dup2 oldfd newfd)) := by
  obtain ⟨k, fds', s, ⟨hf, -⟩ | ⟨l', hf, rfl⟩⟩ := hm.of_sys hc
  · cases hf
  · cases hf
    rfl

theorem printf_move {line : ν} {next : ℓ} (hc : code i l = .sys (printf line next))
    (hm : Move code (fun _ _ => none) S i l fds S') :
    S' = { S with data := S.data.print line }.set i (.running next fds) := by
  obtain ⟨k, fds', s, ⟨hf, -⟩ | ⟨l', hf, rfl⟩⟩ := hm.of_sys hc
  · cases hf
  · cases hf
    rfl

theorem either_move {yes no : ℓ} (hc : code i l = .sys (either yes no))
    (hm : Move code (fun _ _ => none) S i l fds S') :
    S' = S.set i (.running yes fds) ∨ S' = S.set i (.running no fds) := by
  obtain ⟨k, fds', s, ⟨hf, -⟩ | ⟨l', hf, rfl⟩⟩ := hm.of_sys hc
  · cases hf
  · cases hf
    by_cases hk : k = 0
    · rw [if_pos hk]
      exact .inr rfl
    · rw [if_neg hk]
      exact .inl rfl

theorem create_move {p : κ} {next : Nat × Nat → ℓ} (hc : code i l = .sys (create p next))
    (hm : Move code (fun _ _ => none) S i l fds S') :
    S' = { S with data := S.data.set p .empty }.set i
      (.running (next ((fds.add (.reader p)).1, ((fds.add (.reader p)).2.add (.writer p)).1))
        ((fds.add (.reader p)).2.add (.writer p)).2) := by
  obtain ⟨k, fds', s, ⟨hf, -⟩ | ⟨l', hf, rfl⟩⟩ := hm.of_sys hc
  · cases hf
  · cases hf
    rfl

theorem read_move {p : κ} {fd count : Nat} {next : List UInt8 → ℓ}
    (hc : code i l = .sys (read fd count next)) (hfd : fds.get fd = some (.reader p))
    (hm : Move code (fun _ _ => none) S i l fds S') :
    ((S.data.pipe p).buf = [] ∧ S.isOpen (.writer p) = false ∧
        S' = S.set i (.running (next []) fds)) ∨
      ((S.data.pipe p).buf ≠ [] ∧
        S' = { S with data := S.data.set p ((S.data.pipe p).take count) }.set i
          (.running (next ((S.data.pipe p).buf.take count)) fds)) := by
  obtain ⟨k, fds', s, hf⟩ := hm.of_sys hc
  simp only [read, hfd] at hf
  split at hf
  · next hbuf =>
    split at hf
    · simp at hf
    · next hopen =>
      obtain ⟨hf, -⟩ | ⟨l', hf, rfl⟩ := hf
      · cases hf
      · cases hf
        exact .inl ⟨hbuf, Bool.eq_false_iff.mpr hopen, rfl⟩
  · next hbuf =>
    obtain ⟨hf, -⟩ | ⟨l', hf, rfl⟩ := hf
    · cases hf
    · cases hf
      exact .inr ⟨hbuf, rfl⟩

theorem writeSome_move {p : κ} {fd : Nat} {rest : List UInt8} {next : List UInt8 → ℓ}
    (hc : code i l = .sys (writeSome fd rest next)) (hfd : fds.get fd = some (.writer p))
    (hm : Move code (fun _ _ => none) S i l fds S') :
    (S.isOpen (.reader p) = false ∧ S' = S.finish i .killed) ∨
      ∃ k, k ≠ 0 ∧ k ≤ rest.length ∧ (S.data.pipe p).buf.length + k ≤ capacity ∧
        S' = { S with data := S.data.set p ((S.data.pipe p).put (rest.take k)) }.set i
          (.running (next (rest.drop k)) fds) := by
  obtain ⟨k, fds', s, hf⟩ := hm.of_sys hc
  simp only [writeSome, hfd] at hf
  split at hf
  · split at hf
    · next hroom =>
      obtain ⟨hf, -⟩ | ⟨l', hf, rfl⟩ := hf
      · cases hf
      · cases hf
        exact .inr ⟨k, hroom.1, hroom.2.1, hroom.2.2, rfl⟩
    · simp at hf
  · next hopen =>
    obtain ⟨hf, rfl⟩ | ⟨l', hf, -⟩ := hf
    · cases hf
      exact .inl ⟨Bool.eq_false_iff.mpr hopen, rfl⟩
    · cases hf

end Moves

/-! ## Calls that do not wait -/

section Ready

variable [DecidableEq κ] {isOpen : Obj κ → Bool} {fds : Fds (Obj κ)} {s : World κ ν} {p : κ} {fd : Nat}

theorem read_ready {count k : Nat} {next : List UInt8 → ℓ} (hfd : fds.get fd = some (.reader p))
    (h : (s.pipe p).buf ≠ [] ∨ isOpen (.writer p) = false) :
    (read fd count next isOpen k fds s).isSome := by
  simp only [read, hfd]
  split
  · next hbuf => simp [h.resolve_left (not_not_intro hbuf)]
  · rfl

theorem writeSome_ready {rest : List UInt8} {next : List UInt8 → ℓ}
    (hfd : fds.get fd = some (.writer p)) (hrest : rest ≠ [])
    (h : (s.pipe p).buf.length < capacity ∨ isOpen (.reader p) = false) :
    (writeSome fd rest next isOpen 1 fds s).isSome := by
  simp only [writeSome, hfd]
  split
  · next hopen =>
    have hroom : (s.pipe p).buf.length < capacity := h.resolve_right (by simp [hopen])
    have hlen : 1 ≤ rest.length := List.length_pos_iff.mpr hrest
    rw [if_pos ⟨Nat.one_ne_zero, hlen, hroom⟩]
    rfl
  · rfl

end Ready

end Pipe
