import Mathlib.Data.List.Basic

/-!
# Heap blocks

A pointer to a heap block is `NULL` or the block's contents. An access outside the block is
undefined behaviour and has no result. What `realloc` leaves in the part of a block that it adds
is whatever the heap held there: it is a parameter of the call.
-/

namespace CLib

/-- `NULL`, or a pointer to the start of a heap block with these contents. -/
abbrev Ptr := Option (List UInt8)

/-- What the allocator does in one call: whether it finds memory, and the bytes it hands out. -/
structure Heap where
  /-- The allocation succeeds. -/
  ok : Bool
  /-- The byte at each offset of a new block that nothing has written yet. -/
  stale : Nat → UInt8

/-- `realloc(p, n)`. As in glibc, `realloc(p, 0)` frees the block of a `p` that is not `NULL`. -/
def realloc (h : Heap) (p : Ptr) (n : Nat) : Ptr :=
  match p with
  | none => if h.ok then some ((List.range n).map h.stale) else none
  | some b =>
    if n = 0 then none
    else if h.ok then
      some (b.take n ++ (List.range (n - b.length)).map fun i => h.stale (b.length + i))
    else none

/-- The bytes of a block, empty for `NULL`. -/
def contents (p : Ptr) : List UInt8 := p.getD []

/-- `src` stored in `b` from offset `off` on. -/
def splice (b : List UInt8) (off : Nat) (src : List UInt8) : List UInt8 :=
  b.take off ++ src ++ b.drop (off + src.length)

/-- `memcpy(p + off, src, |src|)`. -/
def memcpyTo (p : Ptr) (off : Int) (src : List UInt8) : Option Ptr :=
  match p with
  | none => none
  | some b =>
    if 0 ≤ off ∧ off.toNat + src.length ≤ b.length then some (some (splice b off.toNat src))
    else none

/-- `memset(p + off, v, n)`. -/
def memset (p : Ptr) (off : Int) (v : UInt8) (n : Nat) : Option Ptr :=
  memcpyTo p off (List.replicate n v)

/-- The bytes that `memcpy(dst, p + off, n)` copies. -/
def memcpyFrom (p : Ptr) (off : Int) (n : Nat) : Option (List UInt8) :=
  match p with
  | none => none
  | some b => if 0 ≤ off ∧ off.toNat + n ≤ b.length then some ((b.drop off.toNat).take n) else none

/-- `b[i]` -/
def byteAt (b : List UInt8) (i : Int) : Option UInt8 := if 0 ≤ i then b[i.toNat]? else none

/-- An array after `src` is stored from index `i` on. -/
def store (b : List UInt8) (i : Int) (src : List UInt8) : Option (List UInt8) :=
  if 0 ≤ i ∧ i.toNat + src.length ≤ b.length then some (splice b i.toNat src) else none

theorem length_splice {b src : List UInt8} {off : Nat} (h : off + src.length ≤ b.length) :
    (splice b off src).length = b.length := by
  simp only [splice, List.length_append, List.length_take, List.length_drop]
  omega

theorem getElem?_splice {b src : List UInt8} {off : Nat} (h : off + src.length ≤ b.length) (i : Nat) :
    (splice b off src)[i]? =
      if off ≤ i ∧ i < off + src.length then src[i - off]? else b[i]? := by
  have hlen : (b.take off).length = off := by rw [List.length_take]; omega
  have hlen2 : (b.take off ++ src).length = off + src.length := by rw [List.length_append, hlen]
  by_cases h1 : i < off
  · rw [splice, List.append_assoc, List.getElem?_append_left (by omega), if_neg (by omega),
      List.getElem?_take_of_lt h1]
  · by_cases h2 : i < off + src.length
    · rw [splice, List.getElem?_append_left (by omega), List.getElem?_append_right (by omega), hlen,
        if_pos ⟨by omega, h2⟩]
    · rw [splice, List.getElem?_append_right (by omega), hlen2, List.getElem?_drop,
        if_neg (by omega)]
      congr 1
      omega

theorem splice_nil (b : List UInt8) (off : Nat) : splice b off [] = b := by
  rw [splice, List.append_nil, List.length_nil, Nat.add_zero, List.take_append_drop]

theorem take_splice {b src : List UInt8} {off : Nat} (h : off ≤ b.length) :
    (splice b off src).take off = b.take off := by
  have hlen : (b.take off).length = off := by rw [List.length_take, Nat.min_eq_left h]
  rw [splice, List.append_assoc, List.take_append_of_le_length (by omega), List.take_take, Nat.min_self]

theorem splice_splice {b x y : List UInt8} {off : Nat} (h : off + x.length ≤ b.length) :
    splice (splice b off x) (off + x.length) y = splice b off (x ++ y) := by
  have hlen : (b.take off ++ x).length = off + x.length := by
    rw [List.length_append, List.length_take, Nat.min_eq_left (by omega)]
  have htake : (splice b off x).take (off + x.length) = b.take off ++ x := by
    rw [splice, ← hlen, List.take_left]
  have hdrop : (splice b off x).drop (off + x.length + y.length) =
      b.drop (off + (x ++ y).length) := by
    rw [splice, ← List.drop_drop, ← hlen, List.drop_left, hlen, List.drop_drop, List.length_append,
      Nat.add_assoc]
  rw [splice, htake, hdrop, splice, ← List.append_assoc, List.append_assoc]

theorem memcpyTo_ok {b src : List UInt8} {off : Nat} (h : off + src.length ≤ b.length) :
    memcpyTo (some b) off src = some (some (splice b off src)) := by
  have : 0 ≤ (off : Int) ∧ (off : Int).toNat + src.length ≤ b.length := ⟨by omega, by omega⟩
  simp [memcpyTo, h]

theorem byteAt_natCast (b : List UInt8) (i : Nat) : byteAt b i = b[i]? := by
  rw [byteAt, if_pos (Int.natCast_nonneg i), Int.toNat_natCast]

theorem store_ok {b src : List UInt8} {i : Nat} (h : i + src.length ≤ b.length) :
    store b i src = some (splice b i src) := by
  rw [store, if_pos ⟨Int.natCast_nonneg i, by rwa [Int.toNat_natCast]⟩, Int.toNat_natCast]

/-- A store right behind the first bytes of an array. -/
theorem store_append {b pre : List UInt8} (src : List UInt8) (hpre : b.take pre.length = pre)
    (h : pre.length + src.length ≤ b.length) :
    ∃ b', store b pre.length src = some b' ∧ b'.length = b.length ∧
      b'.take (pre ++ src).length = pre ++ src := by
  refine ⟨splice b pre.length src, store_ok h, length_splice h, ?_⟩
  rw [splice, hpre]
  exact List.take_left

theorem memset_ok {b : List UInt8} {off n : Nat} {v : UInt8} (h : off + n ≤ b.length) :
    memset (some b) off v n = some (some (splice b off (List.replicate n v))) :=
  memcpyTo_ok (by simpa using h)

theorem memcpyFrom_ok {b : List UInt8} {off n : Nat} (h : off + n ≤ b.length) :
    memcpyFrom (some b) off n = some ((b.drop off).take n) := by
  simp [memcpyFrom, h]

theorem memcpyFrom_isSome {b : List UInt8} {off : Int} {n : Nat} :
    (memcpyFrom (some b) off n).isSome ↔ 0 ≤ off ∧ off + n ≤ b.length := by
  simp only [memcpyFrom, Option.isSome_ite]
  omega

/-- A successful `realloc` keeps the bytes that the old and the new block share. -/
theorem realloc_ok {h : Heap} (hok : h.ok = true) (p : Ptr) {n : Nat} (hn : 0 < n) :
    ∃ b, realloc h p n = some b ∧ b.length = n ∧
      ∀ i, i < n → i < (contents p).length → b[i]? = (contents p)[i]? := by
  cases p with
  | none =>
    refine ⟨(List.range n).map h.stale, by simp [realloc, hok], by simp, ?_⟩
    intro i _ hi
    simp [contents] at hi
  | some b =>
    refine ⟨_, by simp [realloc, hok, Nat.ne_of_gt hn]; rfl, ?_, ?_⟩
    · simp only [List.length_append, List.length_take, List.length_map, List.length_range]
      omega
    · intro i hin hi
      have hi' : i < b.length := hi
      rw [List.getElem?_append_left (by rw [List.length_take]; omega), List.getElem?_take_of_lt hin]
      rfl

end CLib
