import LinuxHandson.Lib.CMemory
import LinuxHandson.Lib.CString

/-!
# Copies between kernel and user space

`copy_from_user` and `copy_to_user` on a kernel buffer. The memory at a user address is accessible up
to some byte; a copy that needs more than that faults, after it has copied what it could. Whether a
`copy_from_user` that faults pads the rest with zeros or leaves it is a parameter of the call. An
access outside the kernel buffer is undefined behaviour and has no result.
-/

namespace CLib

/-- What `copy_from_user` finds at a user address: the bytes that it can read there, and whether it
pads what it could not read. -/
structure UserSrc where
  bytes : List UInt8
  padded : Bool
deriving DecidableEq

/-- The bytes that a copy of `n` bytes puts into the kernel buffer. -/
def UserSrc.fetched (src : UserSrc) (n : Nat) : List UInt8 :=
  if n ≤ src.bytes.length then src.bytes.take n
  else src.bytes ++ if src.padded then List.replicate (n - src.bytes.length) 0 else []

/-- `copy_from_user(dst, src, n)`: whether all bytes were copied, and the kernel buffer after the
call. -/
def copyFromUser (dst : List UInt8) (src : UserSrc) (n : Int) : Option (Bool × List UInt8) :=
  if 0 ≤ n ∧ n ≤ dst.length then
    some (decide (n ≤ src.bytes.length), splice dst 0 (src.fetched n.toNat))
  else none

/-- `copy_to_user(dst, src + off, n)` where `room` bytes can be written at `dst`: whether all bytes
were copied, and those that were. -/
def copyToUser (src : List UInt8) (off n : Int) (room : Nat) : Option (Bool × List UInt8) :=
  if 0 ≤ off ∧ 0 ≤ n ∧ off + n ≤ src.length then
    some (decide (n ≤ room), ((src.drop off.toNat).take n.toNat).take room)
  else none

theorem UserSrc.length_fetched (src : UserSrc) (n : Nat) : (src.fetched n).length ≤ n := by
  unfold UserSrc.fetched
  split
  · exact List.length_take_le _ _
  · split
    · rw [List.length_append, List.length_replicate]
      omega
    · rw [List.append_nil]
      omega

/-- A copy that does not fault. -/
theorem UserSrc.fetched_of_le {src : UserSrc} {n : Nat} (h : n ≤ src.bytes.length) :
    src.fetched n = src.bytes.take n := if_pos h

/-- What a call of `copy_from_user` on a buffer of at least `n` bytes does. -/
theorem copyFromUser_eq {dst : List UInt8} {n : Nat} (src : UserSrc) (h : n ≤ dst.length) :
    copyFromUser dst src n = some (decide (n ≤ src.bytes.length), splice dst 0 (src.fetched n)) := by
  have hrange : 0 ≤ (n : Int) ∧ (n : Int) ≤ dst.length := ⟨by omega, by omega⟩
  rw [copyFromUser, if_pos hrange, Int.toNat_natCast]
  simp only [Int.ofNat_le]

theorem copyToUser_eq {src : List UInt8} {off n : Nat} (room : Nat) (h : off + n ≤ src.length) :
    copyToUser src off n room = some (decide (n ≤ room), ((src.drop off).take n).take room) := by
  have hrange : 0 ≤ (off : Int) ∧ 0 ≤ (n : Int) ∧ (off : Int) + n ≤ src.length :=
    ⟨by omega, by omega, by omega⟩
  rw [copyToUser, if_pos hrange, Int.toNat_natCast, Int.toNat_natCast]
  simp only [Int.ofNat_le]

/-- What reaches user space is a part of the kernel buffer. -/
theorem copyToUser_infix {src bytes : List UInt8} {off n : Int} {room : Nat} {b : Bool}
    (h : copyToUser src off n room = some (b, bytes)) : bytes <:+: src := by
  unfold copyToUser at h
  split at h
  · cases h
    exact ((List.take_prefix _ _).trans (List.take_prefix _ _)).isInfix.trans
      (List.drop_suffix _ _).isInfix
  · cases h

/-- A copy from the first `m` bytes of a buffer does not depend on the others. -/
theorem copyToUser_take {src : List UInt8} {off n : Int} {m room : Nat} (h : off + n ≤ m)
    (hm : m ≤ src.length) : copyToUser src off n room = copyToUser (src.take m) off n room := by
  unfold copyToUser
  by_cases hr : 0 ≤ off ∧ 0 ≤ n
  · have hlen : (src.take m).length = m := by rw [List.length_take, Nat.min_eq_left hm]
    have hsame : ((src.take m).drop off.toNat).take n.toNat = (src.drop off.toNat).take n.toNat := by
      rw [List.drop_take, List.take_take, Nat.min_eq_left (by omega)]
    rw [if_pos ⟨hr.1, hr.2, by omega⟩, if_pos ⟨hr.1, hr.2, by omega⟩, hsame]
  · rw [if_neg fun h => hr ⟨h.1, h.2.1⟩, if_neg fun h => hr ⟨h.1, h.2.1⟩]

/-- The first `m` bytes after a copy into a buffer depend on its first `m` bytes only. -/
theorem take_splice_congr {b c f : List UInt8} {m : Nat} (h : b.take m = c.take m) :
    (splice b 0 f).take m = (splice c 0 f).take m := by
  have hdrop : (b.drop f.length).take (m - f.length) = (c.drop f.length).take (m - f.length) := by
    rw [← List.drop_take, ← List.drop_take, h]
  rw [splice, splice, List.take_zero, List.take_zero, List.nil_append, Nat.zero_add,
    List.take_append, List.take_append, hdrop]

/-- A string copied into a buffer and ended with one byte more. -/
theorem set_splice {b f : List UInt8} {v : UInt8} (h : f.length < b.length) :
    (splice b 0 f).set f.length v = f ++ v :: b.drop (f.length + 1) := by
  rw [splice, List.take_zero, List.nil_append, Nat.zero_add,
    List.set_append_right _ _ (Nat.le_refl _), Nat.sub_self, List.drop_eq_getElem_cons h,
    List.set_cons_zero]

theorem take_set_splice {b f : List UInt8} {v : UInt8} (h : f.length < b.length) :
    ((splice b 0 f).set f.length v).take (f.length + 1) = f ++ [v] := by
  rw [set_splice h, List.take_length_add_append]
  rfl

/-- The string in a buffer whose first bytes were copied there and ended with a NUL. -/
theorem ofBuf_set_splice {b f : List UInt8} (h : f.length < b.length) :
    CStr.ofBuf ((splice b 0 f).set f.length 0) = .ofBuf f := by
  refine CStr.ext_bytes ?_
  show List.takeWhile _ _ = List.takeWhile _ _
  rw [set_splice h, List.takeWhile_append]
  split
  · next hall =>
    rw [(List.takeWhile_prefix _).eq_of_length hall]
    exact List.append_nil f
  · rfl

end CLib
