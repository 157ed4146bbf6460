import LinuxHandson.Lib.OnesComplement
import LinuxHandson.Network.PingDemo

/-!
# The Internet checksum

`compute_checksum` adds the words of a buffer in 32 bits, which hold the sum of 65535 bytes, and folds
the carries in twice. The result is the complement of the one's-complement sum.
-/

namespace PingDemo

open CLib

variable {data pre post : List UInt8} {s : UInt32}

/-- The greatest word. -/
def maxWord : Nat := 65535

/-! ## The sum -/

theorem leNat_pair (a b : UInt8) : leNat [a, b] = a.toNat + 256 * b.toNat := rfl

theorem leNat_pair_le (a b : UInt8) : leNat [a, b] ≤ maxWord := by
  have ha := a.toNat_lt
  have hb := b.toNat_lt
  rw [leNat_pair, maxWord]
  omega

theorem words_le (data : List UInt8) : ∀ w ∈ words data, w ≤ maxWord := by
  fun_induction words data with
  | case1 a b rest ih => exact List.forall_mem_cons.mpr ⟨leNat_pair_le a b, ih⟩
  | case2 a => exact List.forall_mem_singleton.mpr (leNat_pair_le a 0)
  | case3 => exact List.forall_mem_nil _

theorem words_sum_le (data : List UInt8) : 2 * (words data).sum ≤ maxWord * (data.length + 1) := by
  unfold maxWord
  fun_induction words data with
  | case1 a b rest ih =>
    have ha := a.toNat_lt
    have hb := b.toNat_lt
    rw [List.sum_cons, leNat_pair, List.length_cons, List.length_cons]
    omega
  | case2 a =>
    have ha := a.toNat_lt
    have hzero : (0 : UInt8).toNat = 0 := rfl
    rw [List.sum_singleton, leNat_pair, hzero, List.length_singleton]
    omega
  | case3 => simp

/-- The accumulator holds the sum of the words when that fits. -/
theorem sumWords_toNat (h : s.toNat + (words data).sum < 2 ^ 32) :
    (sumWords s data).toNat = s.toNat + (words data).sum := by
  fun_induction sumWords s data with
  | case1 s a b rest ih =>
    rw [words, List.sum_cons] at h ⊢
    have hword : (UInt32.ofNat (leNat [a, b])).toNat = leNat [a, b] :=
      UInt32.toNat_ofNat_of_lt' (Nat.lt_of_le_of_lt (by omega) h)
    have hadd : (s + UInt32.ofNat (leNat [a, b])).toNat = s.toNat + leNat [a, b] := by
      rw [UInt32.toNat_add, hword, Nat.mod_eq_of_lt (by omega)]
    rw [ih (by rw [hadd]; omega), hadd, Nat.add_assoc]
  | case2 s a =>
    have hzero : (0 : UInt8).toNat = 0 := rfl
    rw [words, List.sum_singleton, leNat_pair, hzero] at h ⊢
    rw [UInt32.toNat_add, UInt8.toNat_toUInt32, Nat.mod_eq_of_lt (by omega)]
    rfl
  | case3 s =>
    rfl

/-- The loop does not overflow on a buffer of at most 65535 bytes. -/
theorem sumWords_small (h : data.length ≤ 65535) :
    (sumWords 0 data).toNat = (words data).sum ∧ (words data).sum < 2 ^ 31 := by
  have hle := words_sum_le data
  have hmax : maxWord = 65535 := rfl
  have hlt : (words data).sum < 2 ^ 31 := by
    rw [hmax] at hle
    omega
  refine ⟨?_, hlt⟩
  have hsum := @sumWords_toNat data 0 (by show 0 + _ < _; omega)
  rw [hsum]
  exact Nat.zero_add _

/-! ## The folding -/

theorem shift_toNat (s : UInt32) : (s >>> 16).toNat = s.toNat / 65536 := by
  rw [UInt32.toNat_shiftRight]
  exact Nat.shiftRight_eq_div_pow s.toNat 16

theorem mask_toNat (s : UInt32) : (s &&& 0xFFFF).toNat = s.toNat % 65536 := by
  rw [UInt32.toNat_and]
  exact Nat.and_two_pow_sub_one_eq_mod s.toNat 16

/-- The first folding, which leaves less than two words. -/
theorem fold_toNat (s : UInt32) :
    ((s >>> 16) + (s &&& 0xFFFF)).toNat = carryFold maxWord s.toNat ∧
      carryFold maxWord s.toNat ≤ 2 * maxWord := by
  have hlt := s.toNat_lt
  have hle : carryFold maxWord s.toNat ≤ 2 * maxWord := carryFold_le hlt
  refine ⟨?_, hle⟩
  rw [UInt32.toNat_add, shift_toNat, mask_toNat]
  exact Nat.mod_eq_of_lt (Nat.lt_of_le_of_lt hle (by decide))

/-- The second folding adds the carry, and the conversion to 16 bits takes it away. -/
theorem computeChecksum_toNat (data : List UInt8) :
    (computeChecksum data).toNat =
      maxWord - carryFold maxWord (carryFold maxWord (sumWords 0 data).toNat) := by
  have hmax : maxWord = 65535 := rfl
  obtain ⟨hfold, hle⟩ := fold_toNat (sumWords 0 data)
  simp only [computeChecksum]
  generalize carryFold maxWord (sumWords 0 data).toNat = n at hfold hle ⊢
  generalize (sumWords 0 data >>> 16) + (sumWords 0 data &&& 0xFFFF) = t at hfold ⊢
  have hadd : (t + (t >>> 16)).toNat = n + n / 65536 := by
    rw [UInt32.toNat_add, shift_toNat, hfold, Nat.mod_eq_of_lt (by omega)]
  rw [UInt32.toUInt16_not, UInt16.toNat_not, UInt32.toNat_toUInt16, hadd, carryFold]
  have hsize : UInt16.size - 1 = 65535 := rfl
  rw [hsize, hmax]
  omega

/-- The checksum is the complement of the one's-complement sum. -/
theorem computeChecksum_eq (h : data.length ≤ 65535) :
    (computeChecksum data).toNat = maxWord - onesSum maxWord (words data) := by
  obtain ⟨hsum, hlt⟩ := sumWords_small h
  have hsmall : (words data).sum < (maxWord + 1) * (maxWord + 1) := hlt.trans (by decide)
  rw [computeChecksum_toNat, hsum, carryFold_twice (by decide) hsmall,
    onesSum_eq (by decide) (words_le data)]

/-! ## Network byte order -/

/-- The bytes of a word exchanged. -/
def swapped (n : Nat) : Nat := n / 256 + 256 * (n % 256)

theorem htons_toNat (x : UInt16) : (htons x).toNat = swapped x.toNat := by
  have hlt := x.toNat_lt
  have hlen : (leBytes 2 x.toNat).reverse.length = 2 := by rw [List.length_reverse, length_leBytes]
  rw [htons, toNat_ofNat_leNat16 hlen]
  show (UInt8.ofNat (x.toNat / 256)).toNat + 256 * ((UInt8.ofNat x.toNat).toNat + 256 * 0) = _
  rw [UInt8.toNat_ofNat', UInt8.toNat_ofNat', swapped]
  omega

theorem swapped_complement {n : Nat} (h : n ≤ maxWord) : swapped (maxWord - n) = maxWord - swapped n := by
  unfold swapped maxWord at *
  omega

theorem swapped_modEq (n : Nat) : swapped n ≡ 256 * n [MOD maxWord] := by
  have hsplit : 256 * n = swapped n + maxWord * (n / 256) := by
    unfold swapped maxWord
    omega
  have hmod : swapped n + maxWord * (n / 256) ≡ swapped n + 0 [MOD maxWord] :=
    Nat.ModEq.add_left _ (Nat.modEq_zero_iff_dvd.mpr (Nat.dvd_mul_right _ _))
  rw [← hsplit] at hmod
  exact hmod.symm

theorem netWords_sum (data : List UInt8) :
    (netWords data).sum ≡ 256 * (words data).sum [MOD maxWord] ∧
      ((netWords data).sum = 0 ↔ (words data).sum = 0) := by
  fun_induction words data with
  | case1 a b rest ih =>
    obtain ⟨hmod, hzero⟩ := ih
    have hword : leNat [b, a] ≡ 256 * leNat [a, b] [MOD maxWord] := by
      have hswap : leNat [b, a] = swapped (leNat [a, b]) := by
        have ha := a.toNat_lt
        rw [leNat_pair, leNat_pair, swapped]
        omega
      rw [hswap]
      exact swapped_modEq _
    rw [netWords, List.sum_cons, List.sum_cons, Nat.mul_add]
    refine ⟨hword.add hmod, ?_⟩
    rw [leNat_pair, leNat_pair]
    omega
  | case2 a =>
    have hzero : (0 : UInt8).toNat = 0 := rfl
    rw [netWords, List.sum_singleton, List.sum_singleton, leNat_pair, leNat_pair, hzero, Nat.zero_add,
      Nat.mul_zero, Nat.add_zero]
    exact ⟨rfl, by omega⟩
  | case3 => exact ⟨rfl, Iff.rfl⟩

theorem netWords_le (data : List UInt8) : ∀ w ∈ netWords data, w ≤ maxWord := by
  fun_induction netWords data with
  | case1 a b rest ih => exact List.forall_mem_cons.mpr ⟨leNat_pair_le b a, ih⟩
  | case2 a => exact List.forall_mem_singleton.mpr (leNat_pair_le 0 a)
  | case3 => exact List.forall_mem_nil _

/-- The one's-complement sum does not depend on the byte order of the machine. -/
theorem onesSum_netWords (data : List UInt8) :
    onesSum maxWord (netWords data) = swapped (onesSum maxWord (words data)) := by
  obtain ⟨hmod, hzero⟩ := netWords_sum data
  rw [onesSum_eq (by decide) (netWords_le data), onesSum_eq (by decide) (words_le data)]
  have hle : onesRep maxWord (words data).sum ≤ maxWord := onesRep_le (by decide) _
  have hrep := onesRep_modEq maxWord (words data).sum
  have hnull := @onesRep_eq_zero maxWord (words data).sum
  refine (eq_onesRep ?_ ?_ ?_).symm
  · unfold swapped maxWord at *
    omega
  · exact (swapped_modEq _).trans ((hrep.mul_left 256).trans hmod.symm)
  · rw [hzero, ← hnull, swapped]
    omega

/-! ## Verification -/

theorem words_append (pre post : List UInt8) (h : 2 ∣ pre.length) :
    words (pre ++ post) = words pre ++ words post := by
  fun_induction words pre with
  | case1 a b rest ih =>
    rw [List.cons_append, List.cons_append, words, ih (by simpa using h), List.cons_append]
  | case2 a => simp at h
  | case3 => rfl

theorem words_stored (pre post : List UInt8) (h : 2 ∣ pre.length) (x : UInt16) :
    (words (pre ++ leBytes 2 x.toNat ++ post)).sum =
      (words (pre ++ [0, 0] ++ post)).sum + x.toNat := by
  have hlt := x.toNat_lt
  have hfield : ∀ a b : UInt8, words (pre ++ [a, b] ++ post) =
      words pre ++ (leNat [a, b] :: words post) := by
    intro a b
    rw [List.append_assoc, words_append pre _ h]
    rfl
  have hbytes : leBytes 2 x.toNat = [UInt8.ofNat x.toNat, UInt8.ofNat (x.toNat / 256)] := rfl
  have hword : leNat [UInt8.ofNat x.toNat, UInt8.ofNat (x.toNat / 256)] = x.toNat := by
    rw [leNat_pair, UInt8.toNat_ofNat', UInt8.toNat_ofNat']
    omega
  have hzero : leNat [0, 0] = 0 := rfl
  rw [hbytes, hfield, hfield, hword, hzero, List.sum_append, List.sum_append, List.sum_cons,
    List.sum_cons]
  omega

/-- A buffer that contains its checksum has the checksum 0. -/
theorem computeChecksum_stored (h : 2 ∣ pre.length)
    (hlen : (pre ++ [0, 0] ++ post).length ≤ 65535) :
    computeChecksum (pre ++ leBytes 2 (computeChecksum (pre ++ [0, 0] ++ post)).toNat ++ post) = 0 := by
  have hsum := words_stored pre post h (computeChecksum (pre ++ [0, 0] ++ post))
  have hc := computeChecksum_eq hlen
  rw [onesSum_eq (by decide) (words_le _)] at hc
  have hfull : onesRep maxWord (words (pre ++
      leBytes 2 (computeChecksum (pre ++ [0, 0] ++ post)).toNat ++ post)).sum = maxWord := by
    rw [hsum, hc]
    exact onesRep_add_complement (by decide) _
  have hlen' : (pre ++ leBytes 2 (computeChecksum (pre ++ [0, 0] ++ post)).toNat ++ post).length ≤
      65535 := by
    simp only [List.length_append, length_leBytes, List.length_cons, List.length_nil] at hlen ⊢
    exact hlen
  have hfinal := computeChecksum_eq hlen'
  rw [onesSum_eq (by decide) (words_le _), hfull, Nat.sub_self] at hfinal
  exact UInt16.toNat_inj.mp hfinal

/-- The request that `main` sends passes the check of the receiver. -/
theorem computeChecksum_echoRequest (id seq : UInt16) (timestamp : Timeval) :
    computeChecksum (echoRequest id seq timestamp) = 0 := by
  have hfield := @computeChecksum_stored [icmpEcho, 0]
    (leBytes 2 (htons id).toNat ++ leBytes 2 (htons seq).toNat ++
      (leBytes 8 timestamp.tvSec.toNat ++ (leBytes 8 timestamp.tvUsec.toNat ++ List.replicate 48 0)))
    (by decide) (by simp)
  have himage : ∀ x : UInt16, packetImage ⟨icmpEcho, 0, x, htons id, htons seq⟩ timestamp =
      [icmpEcho, 0] ++ leBytes 2 x.toNat ++ (leBytes 2 (htons id).toNat ++
        leBytes 2 (htons seq).toNat ++ (leBytes 8 timestamp.tvSec.toNat ++
          (leBytes 8 timestamp.tvUsec.toNat ++ List.replicate 48 0))) := by
    intro x
    simp [packetImage, Icmphdr.image]
  have hzero : leBytes 2 (0 : UInt16).toNat = [0, 0] := rfl
  rw [echoRequest, echoHeader, himage]
  simp only [himage, hzero]
  exact hfield

/-- `compute_checksum` returns the Internet checksum of every buffer of at most 65535 bytes, and its
bytes in memory are those of the checksum of the words in network order. The accumulator holds the sum
of the words, two foldings make it a word, and a buffer in which the checksum is stored has the
checksum 0. -/
theorem computeChecksum_rfc1071 (data : List UInt8) (h : data.length ≤ 65535) :
    (sumWords 0 data).toNat = (words data).sum ∧
      carryFold maxWord (carryFold maxWord (words data).sum) ≤ maxWord ∧
      (computeChecksum data).toNat = maxWord - onesSum maxWord (words data) ∧
      (htons (computeChecksum data)).toNat = maxWord - onesSum maxWord (netWords data) ∧
      ∀ pre post, data = pre ++ [0, 0] ++ post → 2 ∣ pre.length →
        computeChecksum (pre ++ leBytes 2 (computeChecksum data).toNat ++ post) = 0 := by
  obtain ⟨hsum, hlt⟩ := sumWords_small h
  have hc := computeChecksum_eq h
  have hle : onesSum maxWord (words data) ≤ maxWord := by
    rw [onesSum_eq (by decide) (words_le data)]
    exact onesRep_le (by decide) _
  refine ⟨hsum, carryFold_twice_le (hlt.trans (by decide)), hc, ?_, ?_⟩
  · rw [htons_toNat, hc, swapped_complement hle, onesSum_netWords]
  · rintro pre post rfl heven
    exact computeChecksum_stored heven h

theorem computeChecksum_rfc1071_seven :
    (computeChecksum [8, 0, 0, 0, 1, 2, 3]).toNat = 0xFDF3 ∧
      computeChecksum [8, 0, 0xF3, 0xFD, 1, 2, 3] = 0 := by
  obtain ⟨-, -, hc, -, hstored⟩ := computeChecksum_rfc1071 [8, 0, 0, 0, 1, 2, 3] (by decide)
  have hvalue : (computeChecksum [8, 0, 0, 0, 1, 2, 3]).toNat = 0xFDF3 := hc.trans (by decide)
  have hzero := hstored [8, 0] [1, 2, 3] rfl (by decide)
  rw [hvalue] at hzero
  exact ⟨hvalue, hzero⟩

end PingDemo
