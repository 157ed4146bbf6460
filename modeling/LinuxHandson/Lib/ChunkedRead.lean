import LinuxHandson.Lib.Errno
import LinuxHandson.Lib.Machine

/-!
# Reading a message piece by piece

A reader of a message returns what stands behind the file offset, as much of it as was asked for, and
moves the offset behind that part. A copy that faults moves nothing, so that the call can be made
again. Whatever the sizes of the pieces are and wherever the faults strike, the pieces make up the
message.
-/

namespace CLib

/-- The reply to a call on an open file: the return value, the bytes copied to user space, and the
file offset after the call. -/
structure FileReply where
  ret : Int
  handed : List UInt8
  off : Int
deriving DecidableEq

/-- A `read`: how many bytes it asks for, and how many can be written at the user address. -/
structure ReadCall where
  count : Nat
  room : Nat
deriving DecidableEq

/-- `MAX_RW_COUNT`, to which the VFS cuts the count of a call. -/
def maxCount : Nat := 0x7FFFF000

/-- A call for at least one byte, and for no more than the kernel lets through. -/
def ReadCall.Valid (c : ReadCall) : Prop := 0 < c.count ∧ c.count ≤ maxCount

/-- What a driver answers to a `read`, by its count, offset and room. -/
abbrev Reader := Nat → Int → Nat → Option FileReply

/-- A `read` at the offset that the calls before it left. -/
def Reader.step (read : Reader) : Machine.Step Int ReadCall FileReply := fun off c =>
  (read c.count off c.room).map fun r => (r, r.off)

/-- The bytes that a call returns. -/
def FileReply.bytes (r : FileReply) : List UInt8 := r.handed.take r.ret.toNat

/-- The bytes that a reader gets of some replies. -/
def delivered (rs : List FileReply) : List UInt8 := rs.flatMap FileReply.bytes

/-- The calls that did not fail. -/
def successes (rs : List FileReply) : Nat := rs.countP fun r => decide (0 ≤ r.ret)

/-- The reply of a reader of `msg`. -/
def pieceReply (msg : List UInt8) (count off room : Nat) : FileReply :=
  if msg.length ≤ off then ⟨0, [], off⟩
  else if min count (msg.length - off) ≤ room then
    ⟨(min count (msg.length - off) : Nat), (msg.drop off).take (min count (msg.length - off)),
      (off + min count (msg.length - off) : Nat)⟩
  else ⟨-EFAULT, ((msg.drop off).take (min count (msg.length - off))).take room, off⟩

/-- Every call is answered as by a reader of `msg`. -/
def Reader.Serves (read : Reader) (msg : List UInt8) : Prop :=
  ∀ count off room : Nat, count ≤ maxCount → read count off room = some (pieceReply msg count off room)

/-- What the calls from offset 0 on return makes up the message: it is always a first part of it; a
further call with room for what it asks for, as far as the message goes, returns just that; it is all of
the message once a call returned 0, or once as many calls did not fail as it has bytes; and when it is
all of it, every further call returns 0. -/
def Reader.Delivers (read : Reader) (msg : List UInt8) : Prop :=
  ∀ cs : List ReadCall, (∀ c ∈ cs, c.Valid) →
    ∃ rs off, Machine.exec read.step 0 cs = some (rs, off) ∧ delivered rs <+: msg ∧
      (∀ c : ReadCall, c.Valid → min c.count (msg.length - (delivered rs).length) ≤ c.room →
        ∃ r, read c.count off c.room = some r ∧
          r.ret = min c.count (msg.length - (delivered rs).length) ∧
          r.bytes = (msg.drop (delivered rs).length).take c.count) ∧
      ((∃ r ∈ rs, r.ret = 0) → delivered rs = msg) ∧
      (msg.length ≤ successes rs → delivered rs = msg) ∧
      (delivered rs = msg → ∀ ds : List ReadCall, (∀ d ∈ ds, d.Valid) →
        ∃ qs, Machine.exec read.step off ds = some (qs, off) ∧ ∀ q ∈ qs, q.ret = 0)

/-! ## One call -/

variable {msg : List UInt8} {read : Reader}

theorem pieceReply_end {count off room : Nat} (h : msg.length ≤ off) :
    pieceReply msg count off room = ⟨0, [], off⟩ := if_pos h

/-- A call with room for what it asks for, as far as the message goes, returns just that. -/
theorem pieceReply_of_room {count off room : Nat} (h : min count (msg.length - off) ≤ room) :
    (pieceReply msg count off room).ret = min count (msg.length - off) ∧
      (pieceReply msg count off room).bytes = (msg.drop off).take count := by
  have hrest : (msg.drop off).length = msg.length - off := List.length_drop
  unfold pieceReply
  by_cases hend : msg.length ≤ off
  · rw [if_pos hend, List.drop_of_length_le hend, List.take_nil]
    exact ⟨by show (0 : Int) = _; omega, rfl⟩
  · rw [if_neg hend, if_pos h]
    refine ⟨by show ((min count (msg.length - off) : Nat) : Int) = _; omega, ?_⟩
    rw [FileReply.bytes, Int.toNat_natCast, List.take_take, Nat.min_self, ← hrest,
      ← List.take_eq_take_min]

/-- What a call inside the message does: it fails and moves nothing, or it returns the next bytes. -/
theorem pieceReply_cases {count off : Nat} (room : Nat) (hc : 0 < count) (h : off < msg.length) :
    (pieceReply msg count off room).off = off ∧ (pieceReply msg count off room).ret < 0 ∨
    ∃ n : Nat, 0 < n ∧ off + n ≤ msg.length ∧ (pieceReply msg count off room).off = (off + n : Nat) ∧
      (pieceReply msg count off room).ret = n ∧
      (pieceReply msg count off room).handed = (msg.drop off).take n := by
  unfold pieceReply
  rw [if_neg (by omega)]
  split
  · right
    exact ⟨min count (msg.length - off), by omega, by omega, rfl, rfl, rfl⟩
  · left
    exact ⟨rfl, show -EFAULT < 0 by decide⟩

theorem step_of_serves (h : read.Serves msg) {c : ReadCall} (hc : c.Valid) (off : Nat) :
    read.step off c =
      some (pieceReply msg c.count off c.room, (pieceReply msg c.count off c.room).off) := by
  rw [Reader.step, h c.count off c.room hc.2, Option.map_some]

/-! ## The calls of a run -/

/-- What the calls between two offsets have returned. -/
structure Served (msg : List UInt8) (off off' : Nat) (rs : List FileReply) : Prop where
  mono : off ≤ off'
  le : off' ≤ msg.length
  bytes : delivered rs = (msg.drop off).take (off' - off)
  zero : ∀ r ∈ rs, r.ret = 0 → off' = msg.length
  progress : off' = msg.length ∨ successes rs ≤ off' - off

theorem Served.nil {off : Nat} (h : off ≤ msg.length) : Served msg off off [] where
  mono := Nat.le_refl off
  le := h
  bytes := by simp [delivered]
  zero := by simp
  progress := Or.inr (Nat.zero_le _)

theorem Served.cons_end {off' : Nat} {rs : List FileReply} {r : FileReply}
    (h : Served msg msg.length off' rs) (hr : r.ret = 0) : Served msg msg.length off' (r :: rs) where
  mono := h.mono
  le := h.le
  bytes := by
    have hnil : r.bytes = [] := by simp [FileReply.bytes, hr]
    rw [delivered, List.flatMap_cons, hnil]
    exact h.bytes
  zero := fun _ _ _ => Nat.le_antisymm h.le h.mono
  progress := Or.inl (Nat.le_antisymm h.le h.mono)

theorem Served.cons_fault {off off' : Nat} {rs : List FileReply} {r : FileReply}
    (h : Served msg off off' rs) (hr : r.ret < 0) : Served msg off off' (r :: rs) where
  mono := h.mono
  le := h.le
  bytes := by
    have hnil : r.bytes = [] := by
      rw [FileReply.bytes, Int.toNat_of_nonpos (by omega), List.take_zero]
    rw [delivered, List.flatMap_cons, hnil]
    exact h.bytes
  zero := by
    intro q hq h0
    rcases List.mem_cons.mp hq with rfl | hq
    · omega
    · exact h.zero q hq h0
  progress := by
    have hcount : successes (r :: rs) = successes rs := by
      unfold successes
      rw [List.countP_cons_of_neg (by simp [hr])]
    rw [hcount]
    exact h.progress

theorem Served.cons_piece {off off' n : Nat} {rs : List FileReply} {r : FileReply}
    (h : Served msg (off + n) off' rs) (hn : 0 < n) (hr : r.ret = n)
    (hb : r.handed = (msg.drop off).take n) : Served msg off off' (r :: rs) where
  mono := by
    have := h.mono
    omega
  le := h.le
  bytes := by
    have hmono := h.mono
    have hhead : r.bytes = (msg.drop off).take n := by
      rw [FileReply.bytes, hr, hb, Int.toNat_natCast, List.take_take, Nat.min_self]
    have htail : delivered rs = ((msg.drop off).drop n).take (off' - (off + n)) := by
      rw [List.drop_drop]
      exact h.bytes
    have hsum : off' - off = n + (off' - (off + n)) := by omega
    rw [delivered, List.flatMap_cons, hhead, ← delivered, htail, hsum, List.take_add]
  zero := by
    intro q hq h0
    rcases List.mem_cons.mp hq with rfl | hq
    · omega
    · exact h.zero q hq h0
  progress := by
    have hmono := h.mono
    have hle : successes (r :: rs) ≤ successes rs + 1 := by
      unfold successes
      rw [List.countP_cons]
      split <;> omega
    rcases h.progress with hend | hp
    · exact Or.inl hend
    · right
      omega

theorem served_run (h : read.Serves msg) (cs : List ReadCall) :
    (∀ c ∈ cs, c.Valid) → ∀ off : Nat, off ≤ msg.length →
      ∃ (rs : List FileReply) (off' : Nat),
        Machine.exec read.step off cs = some (rs, (off' : Int)) ∧ Served msg off off' rs := by
  induction cs with
  | nil =>
    intro _ off hoff
    exact ⟨[], off, rfl, Served.nil hoff⟩
  | cons c cs ih =>
    intro hcs off hoff
    have hc := hcs c List.mem_cons_self
    have hstep := step_of_serves h hc off
    have hrest := ih fun d hd => hcs d (List.mem_cons_of_mem c hd)
    rcases Nat.lt_or_ge off msg.length with hlt | hge
    · rcases pieceReply_cases c.room hc.1 hlt with ⟨hstay, hneg⟩ | ⟨n, hn, hle, hmove, hret, hb⟩
      · obtain ⟨rs, off', hrun, hs⟩ := hrest off hoff
        rw [hstay] at hstep
        refine ⟨_, off', ?_, hs.cons_fault hneg⟩
        rw [Machine.exec_cons cs hstep, hrun, Option.map_some]
      · obtain ⟨rs, off', hrun, hs⟩ := hrest (off + n) hle
        rw [hmove] at hstep
        refine ⟨_, off', ?_, hs.cons_piece hn hret hb⟩
        rw [Machine.exec_cons cs hstep, hrun, Option.map_some]
    · obtain rfl : off = msg.length := Nat.le_antisymm hoff hge
      obtain ⟨rs, off', hrun, hs⟩ := hrest msg.length hoff
      rw [pieceReply_end hge] at hstep
      refine ⟨⟨0, [], msg.length⟩ :: rs, off', ?_, hs.cons_end rfl⟩
      rw [Machine.exec_cons cs hstep, hrun, Option.map_some]

/-- Behind the message every call returns 0. -/
theorem exec_end (h : read.Serves msg) (cs : List ReadCall) (hcs : ∀ c ∈ cs, c.Valid) :
    ∃ rs, Machine.exec read.step msg.length cs = some (rs, (msg.length : Int)) ∧
      ∀ r ∈ rs, r.ret = 0 := by
  induction cs with
  | nil => exact ⟨[], rfl, by simp⟩
  | cons c cs ih =>
    have hstep := step_of_serves h (hcs c List.mem_cons_self) msg.length
    obtain ⟨rs, hrun, hzero⟩ := ih fun d hd => hcs d (List.mem_cons_of_mem c hd)
    rw [pieceReply_end (Nat.le_refl _)] at hstep
    refine ⟨_, by rw [Machine.exec_cons cs hstep, hrun, Option.map_some], ?_⟩
    intro r hr
    rcases List.mem_cons.mp hr with rfl | hr
    · rfl
    · exact hzero r hr

/-- A reader of a message delivers it. -/
theorem Reader.Serves.delivers (h : read.Serves msg) : read.Delivers msg := by
  intro cs hcs
  obtain ⟨rs, off, hrun, hs⟩ := served_run h cs hcs 0 (Nat.zero_le _)
  have hbytes : delivered rs = msg.take off := hs.bytes
  have hle := hs.le
  have hlen : (delivered rs).length = off := by
    rw [hbytes, List.length_take]
    omega
  have hall : off = msg.length → delivered rs = msg := by
    rintro rfl
    rw [hbytes, List.take_length]
  refine ⟨rs, off, hrun, ?_, ?_, ?_, ?_, ?_⟩
  · rw [hbytes]
    exact List.take_prefix off msg
  · intro c hc hroom
    rw [hlen] at hroom ⊢
    exact ⟨_, h c.count off c.room hc.2, pieceReply_of_room hroom⟩
  · rintro ⟨r, hr, h0⟩
    exact hall (hs.zero r hr h0)
  · intro hmsg
    rcases hs.progress with hend | hp
    · exact hall hend
    · exact hall (by omega)
  · intro heq ds hds
    have hoff : off = msg.length := by
      rw [← hlen, heq]
    rw [hoff]
    exact exec_end h ds hds

end CLib
