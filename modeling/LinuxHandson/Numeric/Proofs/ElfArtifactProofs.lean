import LinuxHandson.Numeric.ElfArtifact
import Mathlib.Algebra.Group.Nat.Defs

/-!
# Proofs: what `compute_checksum` detects

The lower bits of a negative checksum do not survive a round, as `>> 29` sets all the bits that `<< 3`
has moved up. For every other checksum the shifts are a rotation.
-/

namespace ElfArtifact

open Lockstep

/-! ## The shifts -/

theorem getLsbD_rotate_low (x : BitVec 32) {k : Nat} (hk : k < 3) :
    (rotate x).getLsbD k = x.getLsbD (29 + k) := by
  rw [rotate, BitVec.getLsbD_or, BitVec.getLsbD_shiftLeft, BitVec.getLsbD_sshiftRight,
    if_pos (by omega)]
  simp [hk, show ¬ 32 ≤ k by omega]

/-- The bits above the lowest three are all set if the checksum is negative. -/
theorem getLsbD_rotate_high (x : BitVec 32) {k : Nat} (hk : k < 29) :
    (rotate x).getLsbD (k + 3) = (x.getLsbD k || x.msb) := by
  rw [rotate, BitVec.getLsbD_or, BitVec.getLsbD_shiftLeft, BitVec.getLsbD_sshiftRight,
    if_neg (by omega)]
  simp [show k + 3 < 32 by omega, show ¬ 32 ≤ k + 3 by omega, show ¬ k + 3 < 3 by omega]

theorem top_eq_iff {x y : BitVec 32} :
    x >>> 29 = y >>> 29 ↔ ∀ k < 3, x.getLsbD (29 + k) = y.getLsbD (29 + k) := by
  refine ⟨fun h k _ => ?_, fun h => BitVec.eq_of_getLsbD_eq fun k hk => ?_⟩
  · have hbit := congrArg (BitVec.getLsbD · k) h
    simpa only [BitVec.getLsbD_ushiftRight] using hbit
  · rw [BitVec.getLsbD_ushiftRight, BitVec.getLsbD_ushiftRight]
    by_cases h3 : k < 3
    · exact h k h3
    · rw [BitVec.getLsbD_of_ge x _ (by omega), BitVec.getLsbD_of_ge y _ (by omega)]

/-- The three bits at the top are the lowest ones of the result. -/
theorem top_eq_of_rotate {x y : BitVec 32} (h : rotate x = rotate y) : x >>> 29 = y >>> 29 := by
  refine top_eq_iff.mpr fun k hk => ?_
  rw [← getLsbD_rotate_low x hk, h, getLsbD_rotate_low y hk]

theorem msb_eq_of_top {x y : BitVec 32} (h : x >>> 29 = y >>> 29) : x.msb = y.msb := by
  rw [BitVec.msb_eq_getLsbD_last, BitVec.msb_eq_getLsbD_last]
  exact top_eq_iff.mp h 2 (by decide)

/-- Of a value that is not negative every bit is in the result. -/
theorem eq_of_rotate {x y : BitVec 32} (h : rotate x = rotate y) (hx : x.msb = false) : x = y := by
  have htop := top_eq_of_rotate h
  have hy : y.msb = false := (msb_eq_of_top htop).symm.trans hx
  refine BitVec.eq_of_getLsbD_eq fun k hk => ?_
  by_cases h29 : k < 29
  · have hbit := getLsbD_rotate_high x h29
    rw [h, getLsbD_rotate_high y h29, hx, hy, Bool.or_false, Bool.or_false] at hbit
    exact hbit.symm
  · obtain ⟨j, rfl⟩ := Nat.exists_eq_add_of_le (Nat.not_lt.mp h29)
    exact top_eq_iff.mp htop j (by omega)

/-- Of a negative value only the three bits at the top are. -/
theorem rotate_eq_of_top {x y : BitVec 32} (hx : x.msb = true) (hy : y.msb = true)
    (h : x >>> 29 = y >>> 29) : rotate x = rotate y := by
  refine BitVec.eq_of_getLsbD_eq fun k hk => ?_
  by_cases h3 : k < 3
  · rw [getLsbD_rotate_low x h3, getLsbD_rotate_low y h3]
    exact top_eq_iff.mp h k h3
  · obtain ⟨j, rfl⟩ := Nat.exists_eq_add_of_le' (Nat.not_lt.mp h3)
    rw [getLsbD_rotate_high x (by omega), getLsbD_rotate_high y (by omega), hx, hy, Bool.or_true,
      Bool.or_true]

theorem rotate_ne_iff {x y : BitVec 32} (hxy : x ≠ y) : rotate x ≠ rotate y ↔ ¬ Merge x y := by
  refine not_congr ⟨fun h => ?_, fun h => rotate_eq_of_top h.2.1 h.2.2.1 h.2.2.2⟩
  have htop := top_eq_of_rotate h
  cases hx : x.msb with
  | false => exact absurd (eq_of_rotate h hx) hxy
  | true => exact ⟨hxy, hx, (msb_eq_of_top htop).symm.trans hx, htop⟩

/-! ## A round -/

theorem signExtend_inj {a b : BitVec 8} (h : a.signExtend 32 = b.signExtend 32) : a = b := by
  refine BitVec.eq_of_getLsbD_eq fun k hk => ?_
  have hbit := congrArg (BitVec.getLsbD · k) h
  simpa only [BitVec.getLsbD_signExtend, if_pos hk, show k < 32 by omega, decide_true, Bool.true_and]
    using hbit

theorem round_ne_iff (i : Nat) {s t : BitVec 32} {a b : BitVec 8} (hne : mix s a ≠ mix t b) :
    round i s a ≠ round i t b ↔ ¬ Merge (mix s a) (mix t b) := by
  rw [← rotate_ne_iff hne, round, round, Ne, BitVec.add_left_inj]

/-- A round keeps a difference unless it merges the checksums. -/
theorem round_keeps : Keeps round fun s a t b => ¬ Merge (mix s a) (mix t b) where
  same := fun _ _ h => h.1 rfl
  state := fun i _ _ _ hst => round_ne_iff i fun h => hst ((BitVec.xor_left_inj _).mp h)
  elem := fun i _ _ _ hab => round_ne_iff i fun h => hab (signExtend_inj ((BitVec.xor_right_inj _).mp h))

/-! ## The loop -/

theorem loop_eq (data : List (BitVec 8)) {k i : Nat} (h : i + k = data.length) (s : BitVec 32) :
    loop data k i s = some (run round i s (data.drop i)) := by
  induction k generalizing i s with
  | zero =>
    rw [List.drop_eq_nil_of_le (by omega)]
    rfl
  | succ k ih =>
    rw [loop, List.getElem?_eq_getElem (by omega), Option.bind_some, ih (by omega),
      List.drop_eq_getElem_cons (by omega : i < data.length), run]

theorem computeChecksum_eq (data : List (BitVec 8)) :
    computeChecksum data data.length = some (run round 0 0 data) :=
  loop_eq data (Nat.zero_add _) 0

theorem detects_iff_run (data1 data2 : List (BitVec 8)) :
    Detects data1 data2 ↔ run round 0 0 data1 ≠ run round 0 0 data2 := by
  refine ⟨fun ⟨x, y, hx, hy, hxy⟩ => ?_, fun h =>
    ⟨_, _, computeChecksum_eq data1, computeChecksum_eq data2, h⟩⟩
  rw [computeChecksum_eq] at hx hy
  cases hx
  cases hy
  exact hxy

/-! ## Short texts -/

/-- Below `2 ^ 29` the shifts multiply by 8. -/
theorem toNat_rotate {x : BitVec 32} (h : x.toNat < 2 ^ 29) : (rotate x).toNat = 8 * x.toNat := by
  have hmsb : x.msb = false := by
    rw [BitVec.msb_eq_false_iff_two_mul_lt]
    omega
  have hzero : x >>> 29 = 0#32 := by
    apply BitVec.eq_of_toNat_eq
    rw [BitVec.toNat_ushiftRight, Nat.shiftRight_eq_div_pow, Nat.div_eq_of_lt h]
    rfl
  rw [rotate, BitVec.sshiftRight_eq_of_msb_false hmsb, hzero, BitVec.or_zero, BitVec.toNat_shiftLeft,
    Nat.shiftLeft_eq]
  omega

theorem toNat_mix_lt {s : BitVec 32} {c : BitVec 8} {k : Nat} (hs : s.toNat < 2 ^ (7 + k))
    (hc : c.toNat < 2 ^ 7) : (mix s c).toNat < 2 ^ (7 + k) := by
  have hmsb : c.msb = false := by
    rw [BitVec.msb_eq_false_iff_two_mul_lt]
    omega
  rw [mix, BitVec.toNat_xor, BitVec.signExtend_eq_setWidth_of_msb_false hmsb]
  refine Nat.xor_lt_two_pow hs ?_
  have hle : 2 ^ 7 ≤ 2 ^ (7 + k) := Nat.pow_le_pow_right (by decide) (by omega)
  rw [BitVec.toNat_setWidth]
  omega

/-- The checksum of text before round `i`. -/
def Small (i : Nat) (s : BitVec 32) : Prop := s.toNat < 2 ^ (7 + 3 * i)

theorem Small.round {i : Nat} {s : BitVec 32} {c : BitVec 8} (hs : Small i s) (hc : c.toNat < 2 ^ 7)
    (hi : i < 8) : Small (i + 1) (round i s c) := by
  have hmix := toNat_mix_lt hs hc
  have hle : 2 ^ (7 + 3 * i) ≤ 2 ^ 28 := Nat.pow_le_pow_right (by decide) (by omega)
  have hrot := toNat_rotate (x := mix s c) (by omega)
  have hpow : 2 ^ (7 + 3 * (i + 1)) = 2 ^ (7 + 3 * i) * 8 := by
    rw [Nat.mul_succ, ← Nat.add_assoc, Nat.pow_add]
  rw [Small, ElfArtifact.round, BitVec.toNat_add, BitVec.toNat_ofNat, hrot, hpow]
  omega

theorem Small.not_merge {i : Nat} {s t : BitVec 32} {a b : BitVec 8} (hs : Small i s)
    (ha : a.toNat < 2 ^ 7) (hi : i ≤ 8) : ¬ Merge (mix s a) (mix t b) := by
  have hmix := toNat_mix_lt hs ha
  have hle : 2 ^ (7 + 3 * i) ≤ 2 ^ 31 := Nat.pow_le_pow_right (by decide) (by omega)
  rintro ⟨-, hneg, -⟩
  rw [BitVec.msb_eq_true_iff_two_mul_ge] at hneg
  omega

theorem always_of_small {i : Nat} {s t : BitVec 32} {data1 data2 : List (BitVec 8)}
    (h1 : ∀ c ∈ data1, c.toNat < 2 ^ 7) (h2 : ∀ c ∈ data2, c.toNat < 2 ^ 7)
    (hlen : i + data1.length ≤ 9) (hs : Small i s) (ht : Small i t) :
    Always round (fun s a t b => ¬ Merge (mix s a) (mix t b)) i s t data1 data2 := by
  induction data1 generalizing i s t data2 with
  | nil => trivial
  | cons a data1 ih =>
    cases data2 with
    | nil => trivial
    | cons b data2 =>
      rw [List.forall_mem_cons] at h1 h2
      rw [List.length_cons] at hlen
      refine ⟨hs.not_merge h1.1 (by omega), ?_⟩
      cases data1 with
      | nil => trivial
      | cons a' data1 =>
        rw [List.length_cons] at hlen
        refine ih h1.2 h2.2 ?_ (hs.round h1.1 (by omega)) (ht.round h2.1 (by omega))
        rw [List.length_cons]
        omega

/-- In a text of at most 9 characters the checksum does not become negative before the last shifts, so
that a wrong character is always detected. -/
theorem detects_short {data1 data2 : List (BitVec 8)} (h : DifferOnce data1 data2)
    (h1 : ∀ c ∈ data1, c.toNat < 2 ^ 7) (h2 : ∀ c ∈ data2, c.toNat < 2 ^ 7)
    (hlen : data1.length ≤ 9) : Detects data1 data2 := by
  rw [detects_iff_run, round_keeps.run_ne_iff h]
  exact always_of_small h1 h2 (by omega) (Nat.two_pow_pos 7) (Nat.two_pow_pos 7)

/-! ## What it detects -/

/-- `compute_checksum` tells two strings that differ in one byte apart exactly if no round merges their
checksums, and so does a round with two checksums. -/
theorem checksum_detects_iff (data1 data2 : List (BitVec 8)) (h : DifferOnce data1 data2) :
    (Detects data1 data2 ↔ NeverMerge data1 data2) ∧
      ∀ i c s t, s ≠ t → (round i s c ≠ round i t c ↔ ¬ Merge (mix s c) (mix t c)) := by
  refine ⟨?_, fun i c s t hst => round_keeps.state i s t c hst⟩
  rw [detects_iff_run]
  exact round_keeps.run_ne_iff h 0 0

/-- `"data"` and `"mata"`: the first byte differs, and three rounds follow. -/
theorem checksum_detects_data :
    DifferOnce [100#8, 97#8, 116#8, 97#8] [109#8, 97#8, 116#8, 97#8] ∧
      Detects [100#8, 97#8, 116#8, 97#8] [109#8, 97#8, 116#8, 97#8] := by
  have h : DifferOnce [100#8, 97#8, 116#8, 97#8] [109#8, 97#8, 116#8, 97#8] :=
    differOnce_set (k := 0) rfl (by decide)
  refine ⟨h, (checksum_detects_iff _ _ h).1.mpr ⟨?_, ?_, ?_, ?_, trivial⟩⟩
  all_goals
    unfold Merge
    decide

theorem checksum_global_message :
    DifferOnce globalMessage (globalMessage.set 0 84#8) ∧
      ¬ Detects globalMessage (globalMessage.set 0 84#8) := by
  have hv : globalMessage[0]? = some 86#8 := rfl
  refine ⟨differOnce_set hv (by decide), fun ⟨x, y, hx, hy, hxy⟩ => hxy ?_⟩
  have he : computeChecksum globalMessage globalMessage.length =
      computeChecksum (globalMessage.set 0 84) (globalMessage.set 0 84).length := by
    decide +kernel
  exact Option.some.inj (hx.symm.trans (he.trans hy))

end ElfArtifact
