import Mathlib.Algebra.Group.Nat.Defs
import Mathlib.Data.List.Basic

/-!
# Numbers in memory

The bytes of a number on a little-endian machine, and the conversions between host and network
byte order, which reverse them.
-/

namespace CLib

/-- The number stored in little-endian order. -/
def leNat : List UInt8 → Nat
  | [] => 0
  | b :: bs => b.toNat + 256 * leNat bs

/-- The `n` bytes of a number in little-endian order. -/
def leBytes : Nat → Nat → List UInt8
  | 0, _ => []
  | n + 1, x => UInt8.ofNat x :: leBytes n (x / 256)

/-- `htonl` and `ntohl` -/
def htonl (x : UInt32) : UInt32 := UInt32.ofNat (leNat (leBytes 4 x.toNat).reverse)

/-- `htons` and `ntohs` -/
def htons (x : UInt16) : UInt16 := UInt16.ofNat (leNat (leBytes 2 x.toNat).reverse)

@[simp] theorem length_leBytes (n x : Nat) : (leBytes n x).length = n := by
  induction n generalizing x with
  | zero => rfl
  | succ n ih => rw [leBytes, List.length_cons, ih]

theorem leNat_lt (bs : List UInt8) : leNat bs < 256 ^ bs.length := by
  induction bs with
  | nil => decide
  | cons b bs ih =>
    have hb := b.toNat_lt
    rw [leNat, List.length_cons, Nat.pow_succ]
    omega

theorem leNat_leBytes (n : Nat) : ∀ x, leNat (leBytes n x) = x % 256 ^ n := by
  induction n with
  | zero => intro x; rw [Nat.pow_zero, Nat.mod_one]; rfl
  | succ n ih =>
    intro x
    have hx : (UInt8.ofNat x).toNat = x % 256 := UInt8.toNat_ofNat'
    rw [leBytes, leNat, ih, hx, Nat.pow_succ', Nat.mod_mul]

theorem leBytes_leNat (bs : List UInt8) : leBytes bs.length (leNat bs) = bs := by
  induction bs with
  | nil => rfl
  | cons b bs ih =>
    have hb := b.toNat_lt
    have hhead : UInt8.ofNat (b.toNat + 256 * leNat bs) = b := by
      rw [← UInt8.toNat_inj, UInt8.toNat_ofNat']
      omega
    have htail : (b.toNat + 256 * leNat bs) / 256 = leNat bs := by omega
    rw [List.length_cons, leNat, leBytes, hhead, htail, ih]

theorem toNat_ofNat_leNat32 {bs : List UInt8} (h : bs.length = 4) :
    (UInt32.ofNat (leNat bs)).toNat = leNat bs := by
  have hlt := leNat_lt bs
  rw [h] at hlt
  exact UInt32.toNat_ofNat_of_lt' hlt

theorem toNat_ofNat_leNat16 {bs : List UInt8} (h : bs.length = 2) :
    (UInt16.ofNat (leNat bs)).toNat = leNat bs := by
  have hlt := leNat_lt bs
  rw [h] at hlt
  exact UInt16.toNat_ofNat_of_lt' hlt

theorem ofNat_leNat_leBytes32 (x : UInt32) : UInt32.ofNat (leNat (leBytes 4 x.toNat)) = x := by
  have hlt : x.toNat < 256 ^ 4 := x.toNat_lt
  rw [leNat_leBytes, Nat.mod_eq_of_lt hlt, UInt32.ofNat_toNat]

theorem ofNat_leNat_leBytes16 (x : UInt16) : UInt16.ofNat (leNat (leBytes 2 x.toNat)) = x := by
  have hlt : x.toNat < 256 ^ 2 := x.toNat_lt
  rw [leNat_leBytes, Nat.mod_eq_of_lt hlt, UInt16.ofNat_toNat]

/-- In memory, a number in network order has its bytes reversed. -/
theorem leBytes_htonl (x : UInt32) : leBytes 4 (htonl x).toNat = (leBytes 4 x.toNat).reverse := by
  have hlen : (leBytes 4 x.toNat).reverse.length = 4 := by rw [List.length_reverse, length_leBytes]
  have h := leBytes_leNat (leBytes 4 x.toNat).reverse
  rw [hlen] at h
  rw [htonl, toNat_ofNat_leNat32 hlen, h]

theorem leBytes_htons (x : UInt16) : leBytes 2 (htons x).toNat = (leBytes 2 x.toNat).reverse := by
  have hlen : (leBytes 2 x.toNat).reverse.length = 2 := by rw [List.length_reverse, length_leBytes]
  have h := leBytes_leNat (leBytes 2 x.toNat).reverse
  rw [hlen] at h
  rw [htons, toNat_ofNat_leNat16 hlen, h]

theorem htonl_htonl (x : UInt32) : htonl (htonl x) = x := by
  have hlt : x.toNat < 256 ^ 4 := x.toNat_lt
  rw [htonl, leBytes_htonl, List.reverse_reverse, leNat_leBytes, ← UInt32.toNat_inj,
    Nat.mod_eq_of_lt hlt]
  exact UInt32.toNat_ofNat_of_lt' x.toNat_lt

theorem htons_htons (x : UInt16) : htons (htons x) = x := by
  have hlt : x.toNat < 256 ^ 2 := x.toNat_lt
  rw [htons, leBytes_htons, List.reverse_reverse, leNat_leBytes, ← UInt16.toNat_inj,
    Nat.mod_eq_of_lt hlt]
  exact UInt16.toNat_ofNat_of_lt' x.toNat_lt

end CLib
