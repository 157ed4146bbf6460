import LinuxHandson.Lib.CMemory
import Mathlib.Algebra.GroupWithZero.Nat
import Mathlib.Data.List.SplitLengths

/-!
# Memory as an array of blocks

The bytes of blocks of one size, one after the other. Whole blocks are read from that memory as they
are, and bytes stored over whole blocks change just these.
-/

namespace CLib

/-- The first `n` blocks of an array, in memory. -/
def blockBytes (t : Nat → List UInt8) (n : Nat) : List UInt8 := (List.range n).flatMap t

/-- Block `i` of a memory of blocks of `size` bytes. -/
def blockAt (size : Nat) (bytes : List UInt8) (i : Nat) : List UInt8 :=
  (bytes.drop (size * i)).take size

/-- The array after bytes are stored from block `a` on. -/
def storeBlocks (size : Nat) (t : Nat → List UInt8) (a : Nat) (bytes : List UInt8) (i : Nat) :
    List UInt8 :=
  if a ≤ i ∧ i < a + bytes.length / size then blockAt size bytes (i - a) else t i

variable {size n a k : Nat} {t u : Nat → List UInt8} {bytes : List UInt8}

theorem length_blockBytes (h : ∀ i, i < n → (t i).length = size) :
    (blockBytes t n).length = size * n := by
  induction n with
  | zero => rfl
  | succ n ih =>
    rw [blockBytes, List.range_succ, List.flatMap_append, List.length_append, List.flatMap_singleton,
      h n (Nat.lt_succ_self n), Nat.mul_succ]
    exact congrArg (· + size) (ih fun i hi => h i (Nat.lt_succ_of_lt hi))

theorem blockBytes_congr (h : ∀ i, i < n → t i = u i) : blockBytes t n = blockBytes u n := by
  unfold blockBytes
  rw [List.flatMap_congr fun i hi => h i (List.mem_range.mp hi)]

theorem blockBytes_add (a k : Nat) :
    blockBytes t (a + k) = blockBytes t a ++ blockBytes (fun i => t (a + i)) k := by
  rw [blockBytes, List.range_add, List.flatMap_append, List.flatMap_map]
  rfl

theorem blockBytes_split (h : a + k ≤ n) :
    blockBytes t n = blockBytes t a ++ (blockBytes (fun i => t (a + i)) k ++
      blockBytes (fun i => t (a + k + i)) (n - (a + k))) := by
  rw [← List.append_assoc, ← blockBytes_add, ← blockBytes_add, Nat.add_sub_cancel' h]

/-- The bytes that are read at block `a`. -/
theorem take_drop_blockBytes (ht : ∀ i, i < n → (t i).length = size) (h : a + k ≤ n) :
    ((blockBytes t n).drop (size * a)).take (size * k) = blockBytes (fun i => t (a + i)) k := by
  have ha := length_blockBytes (n := a) (t := t) fun i hi => ht i (by omega)
  have hk := length_blockBytes (n := k) (t := fun i => t (a + i)) fun i hi => ht (a + i) (by omega)
  rw [blockBytes_split h, ← ha, List.drop_left, ← hk, List.take_left]

theorem blockBytes_blockAt (h : bytes.length = size * k) :
    blockBytes (blockAt size bytes) k = bytes := by
  induction k generalizing bytes with
  | zero => exact (List.eq_nil_of_length_eq_zero h).symm
  | succ k ih =>
    have hshift : ∀ i, blockAt size bytes (1 + i) = blockAt size (bytes.drop size) i := by
      intro i
      rw [blockAt, blockAt, List.drop_drop, Nat.mul_add, Nat.mul_one]
    have hrest : (bytes.drop size).length = size * k := by
      rw [List.length_drop, h, Nat.mul_succ, Nat.add_sub_cancel]
    have hfirst : blockBytes (blockAt size bytes) 1 = bytes.take size := by
      show blockAt size bytes 0 ++ [] = _
      rw [List.append_nil, blockAt, Nat.mul_zero, List.drop_zero]
    rw [Nat.add_comm, blockBytes_add, hfirst, blockBytes_congr fun i _ => hshift i, ih hrest,
      List.take_append_drop]

theorem length_blockAt (h : bytes.length = size * k) {i : Nat} (hi : i < k) :
    (blockAt size bytes i).length = size := by
  have hle : size * i + size ≤ size * k := by
    rw [← Nat.mul_succ]
    exact Nat.mul_le_mul_left size hi
  rw [blockAt, List.length_take, List.length_drop, h]
  omega

theorem length_storeBlocks (hsize : 0 < size) (ht : ∀ i, i < n → (t i).length = size)
    (hb : bytes.length = size * k) {i : Nat} (hi : i < n) :
    (storeBlocks size t a bytes i).length = size := by
  unfold storeBlocks
  split
  · next h =>
    rw [hb, Nat.mul_div_cancel_left k hsize] at h
    exact length_blockAt hb (by omega)
  · exact ht i hi

/-- Bytes stored over whole blocks. -/
theorem splice_blockBytes (hsize : 0 < size) (ht : ∀ i, i < n → (t i).length = size)
    (hb : bytes.length = size * k) (h : a + k ≤ n) :
    splice (blockBytes t n) (size * a) bytes = blockBytes (storeBlocks size t a bytes) n := by
  have ha := length_blockBytes (n := a) (t := t) fun i hi => ht i (by omega)
  have hk := length_blockBytes (n := k) (t := fun i => t (a + i)) fun i hi => ht (a + i) (by omega)
  have hdiv : bytes.length / size = k := by rw [hb, Nat.mul_div_cancel_left k hsize]
  have hbefore : blockBytes (storeBlocks size t a bytes) a = blockBytes t a := by
    refine blockBytes_congr fun i hi => ?_
    rw [storeBlocks, if_neg (by omega)]
  have hstored : blockBytes (fun i => storeBlocks size t a bytes (a + i)) k = bytes := by
    refine (blockBytes_congr fun i hi => ?_).trans (blockBytes_blockAt hb)
    rw [storeBlocks, if_pos (by rw [hdiv]; omega), Nat.add_sub_cancel_left]
  have hafter : blockBytes (fun i => storeBlocks size t a bytes (a + k + i)) (n - (a + k)) =
      blockBytes (fun i => t (a + k + i)) (n - (a + k)) := by
    refine blockBytes_congr fun i hi => ?_
    rw [storeBlocks, if_neg (by rw [hdiv]; omega)]
  rw [blockBytes_split (t := storeBlocks size t a bytes) h, hbefore, hstored, hafter, splice,
    blockBytes_split h, ← ha, List.take_left, hb, ← hk, ← List.length_append, ← List.append_assoc,
    List.drop_left, List.append_assoc]

/-- A split into lengths depends on as many bytes as these need. -/
theorem splitLengths_take (l : List UInt8) (sz : List Nat) :
    sz.splitLengths (l.take sz.sum) = sz.splitLengths l := by
  induction sz generalizing l with
  | nil => rfl
  | cons n sz ih =>
    rw [List.splitLengths_cons, List.splitLengths_cons, List.sum_cons, List.take_take,
      Nat.min_eq_left (Nat.le_add_right n _), List.drop_take, Nat.add_sub_cancel_left, ih]

end CLib
