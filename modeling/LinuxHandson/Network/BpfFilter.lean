import LinuxHandson.Lib.Bpf

/-!
# The filter for ICMP packets

The program that `main` of `bpf_filter.c` attaches to its socket.
-/

namespace BpfFilter

open Bpf

/-- `ETH_P_IP` -/
def ethPIp : UInt32 := 0x0800

/-- `IPPROTO_ICMP` -/
def ipprotoIcmp : UInt32 := 1

/-- The program that `main` attaches. -/
def code : List SockFilter :=
  [ stmt (BPF_LD ||| BPF_H ||| BPF_ABS) 12
  , jump (BPF_JMP ||| BPF_JEQ ||| BPF_K) ethPIp 0 3
  , stmt (BPF_LD ||| BPF_B ||| BPF_ABS) 23
  , jump (BPF_JMP ||| BPF_JEQ ||| BPF_K) ipprotoIcmp 0 1
  , stmt (BPF_RET ||| BPF_K) 65535
  , stmt (BPF_RET ||| BPF_K) 0 ]

/-- The EtherType of a frame, if it has one. -/
def etherType (frame : List UInt8) : Option Nat := do
  let hi ← frame[12]?
  let lo ← frame[13]?
  return 256 * hi.toNat + lo.toNat

/-- The frame has an IP header up to the protocol, and the protocol is ICMP. -/
def IsIcmp (frame : List UInt8) : Prop :=
  24 ≤ frame.length ∧ etherType frame = some 0x0800 ∧ frame[23]? = some 1

instance (frame : List UInt8) : Decidable (IsIcmp frame) := inferInstanceAs (Decidable (_ ∧ _ ∧ _))

end BpfFilter
