import LinuxHandson.Network.BpfFilter

/-!
# What the filter accepts

The filter is followed instruction by instruction. A frame that is too short for one of the two loads is
rejected there, and both jumps that reject end at the last instruction.
-/

namespace BpfFilter

open Bpf

variable {frame : List UInt8}

/-- The loads and jumps stay within the filter, so that it returns for every frame. -/
theorem filter_returns (frame : List UInt8) : (filter code frame).isSome :=
  filter_isSome (by decide) (by decide) frame

/-! ## The loads -/

theorem etherType_eq (h : 13 < frame.length) :
    etherType frame = some (256 * (frame[12]).toNat + (frame[13]).toNat) := by
  simp only [etherType, List.getElem?_eq_getElem (Nat.lt_of_succ_lt h), List.getElem?_eq_getElem h]
  rfl

theorem load_etherType (h : 13 < frame.length) :
    ∃ v, loadAt frame 12 2 = some v ∧ (v = ethPIp ↔ etherType frame = some 0x0800) := by
  refine ⟨_, loadAt_two h, ?_⟩
  have hhi := (frame[12]).toNat_lt
  have hlo := (frame[13]).toNat_lt
  have hlt : (frame[13]).toNat + 256 * (frame[12]).toNat < 2 ^ 32 := by omega
  have hip : ethPIp.toNat = 0x0800 := rfl
  rw [etherType_eq h, Option.some.injEq, ← UInt32.toNat_inj, UInt32.toNat_ofNat_of_lt' hlt, hip]
  omega

theorem load_protocol (h : 23 < frame.length) :
    ∃ v, loadAt frame 23 1 = some v ∧ (v = ipprotoIcmp ↔ frame[23]? = some 1) := by
  refine ⟨_, loadAt_one h, ?_⟩
  have hbyte := (frame[23]).toNat_lt
  have hicmp : ipprotoIcmp.toNat = (1 : UInt8).toNat := rfl
  rw [List.getElem?_eq_getElem h, Option.some.injEq, ← UInt32.toNat_inj,
    UInt32.toNat_ofNat_of_lt' (Nat.lt_trans hbyte (by decide)), hicmp, UInt8.toNat_inj]

/-! ## The run -/

/-- From the second load on. -/
theorem run_protocol (frame : List UInt8) (s : State) :
    run frame 4 (code.drop 2) s =
      some (if 24 ≤ frame.length ∧ frame[23]? = some 1 then 65535 else 0) := by
  by_cases hlen : 23 < frame.length
  · obtain ⟨v, hv, hiff⟩ := load_protocol hlen
    rw [code, List.drop, List.drop, List.drop, run_ldAbs rfl hv]
    by_cases hicmp : v = ipprotoIcmp
    · rw [run_jeq_eq rfl hicmp, if_pos ⟨hlen, hiff.mp hicmp⟩]
      exact run_ret rfl
    · rw [run_jeq_ne rfl hicmp, if_neg fun h => hicmp (hiff.mpr h.2)]
      exact run_ret rfl
  · rw [if_neg fun h => hlen h.1]
    exact run_ldAbs_short rfl (loadAt_none (by show _ < 23 + 1; omega))

theorem filter_eq (frame : List UInt8) :
    filter code frame = some (if IsIcmp frame then 65535 else 0) := by
  by_cases hlen : 13 < frame.length
  · obtain ⟨v, hv, hiff⟩ := load_etherType hlen
    have hload : filter code frame = run frame 5 (code.drop 1) { State.init with a := v } :=
      run_ldAbs rfl hv
    rw [hload, code, List.drop, List.drop]
    by_cases hip : v = ethPIp
    · rw [run_jeq_eq rfl hip]
      refine (run_protocol frame _).trans ?_
      simp only [IsIcmp, hiff.mp hip, true_and]
    · rw [run_jeq_ne rfl hip, if_neg fun h => hip (hiff.mpr h.2.1)]
      exact run_ret rfl
  · rw [if_neg fun h => hlen (Nat.lt_of_lt_of_le (by decide) h.1)]
    exact run_ldAbs_short rfl (loadAt_none (by show _ < 12 + 2; omega))

/-- The filter returns 65535 for the frames with an IPv4 EtherType and the protocol ICMP, if they have
the 24 bytes in which these are found, and 0 for all others. -/
theorem bpf_accepts_icmp (frame : List UInt8) :
    (filter code frame = some 65535 ↔ IsIcmp frame) ∧ (filter code frame = some 0 ↔ ¬ IsIcmp frame) := by
  rw [filter_eq]
  by_cases h : IsIcmp frame
  · rw [if_pos h]
    exact ⟨iff_of_true rfl h, iff_of_false (by decide) (not_not.mpr h)⟩
  · rw [if_neg h]
    exact ⟨iff_of_false (by decide) h, iff_of_true rfl h⟩

/-- A frame that ends with the protocol. -/
example : filter code (List.replicate 12 0xFF ++ [0x08, 0x00] ++ List.replicate 9 0 ++ [1]) =
    some 65535 := by
  decide

end BpfFilter
