import LinuxHandson.Lib.Bytes

/-!
# Classic BPF

The machine that runs a socket filter on a frame: an accumulator, an index register and a scratch
memory. Jumps go forward, from the instruction behind them. A load beyond the end of the frame and a
division by zero end the filter with 0.
-/

namespace Bpf

open CLib

/-- `struct sock_filter` -/
structure SockFilter where
  code : UInt16
  jt : UInt8
  jf : UInt8
  k : UInt32
deriving DecidableEq

/-! ## Instruction codes -/

/-- The class of loads into the accumulator. -/
def BPF_LD : UInt16 := 0x00

/-- The class of jumps. -/
def BPF_JMP : UInt16 := 0x05

/-- The class of returns. -/
def BPF_RET : UInt16 := 0x06

/-- A size of two bytes. -/
def BPF_H : UInt16 := 0x08

/-- A size of one byte. -/
def BPF_B : UInt16 := 0x10

/-- The mode of a load from a fixed place of the frame. -/
def BPF_ABS : UInt16 := 0x20

/-- The jump that compares for equality. -/
def BPF_JEQ : UInt16 := 0x10

/-- The source that is the constant of the instruction. -/
def BPF_K : UInt16 := 0x00

/-- `BPF_STMT` -/
def stmt (code : UInt16) (k : UInt32) : SockFilter := ⟨code, 0, 0, k⟩

/-- `BPF_JUMP` -/
def jump (code : UInt16) (k : UInt32) (jt jf : UInt8) : SockFilter := ⟨code, jt, jf, k⟩

/-- The width of a load. -/
inductive Width where
  | w
  | h
  | b
deriving DecidableEq

/-- The bytes of a load. -/
def Width.bytes : Width → Nat
  | .w => 4
  | .h => 2
  | .b => 1

/-- The second operand of an operation. -/
inductive Src where
  | k (v : UInt32)
  | x
deriving DecidableEq

/-- The arithmetic operations, on the accumulator and a second operand. -/
inductive AluOp where
  | add
  | sub
  | mul
  | div
  | or
  | and
  | lsh
  | rsh
  | mod
  | xor
deriving DecidableEq

/-- The conditions of the jumps. -/
inductive Cond where
  | eq
  | gt
  | ge
  | set
deriving DecidableEq

/-- The instructions. -/
inductive Instr where
  | ldAbs (size : Width) (k : UInt32)
  | ldInd (size : Width) (k : UInt32)
  | ldLen
  | ldImm (k : UInt32)
  | ldMem (k : UInt32)
  | ldxLen
  | ldxImm (k : UInt32)
  | ldxMem (k : UInt32)
  /-- `4 * (P[k] & 0xf)`, the length of an IP header. -/
  | ldxMsh (k : UInt32)
  | st (k : UInt32)
  | stx (k : UInt32)
  | alu (op : AluOp) (src : Src)
  | neg
  | ja (k : UInt32)
  | jmp (cond : Cond) (src : Src) (jt jf : UInt8)
  | retK (k : UInt32)
  | retA
  | tax
  | txa
deriving DecidableEq

/-- The instruction that a code stands for, if it is one. -/
def decode (f : SockFilter) : Option Instr :=
  match f.code.toNat with
  | 0x20 => some (.ldAbs .w f.k)
  | 0x28 => some (.ldAbs .h f.k)
  | 0x30 => some (.ldAbs .b f.k)
  | 0x40 => some (.ldInd .w f.k)
  | 0x48 => some (.ldInd .h f.k)
  | 0x50 => some (.ldInd .b f.k)
  | 0x80 => some .ldLen
  | 0x00 => some (.ldImm f.k)
  | 0x60 => some (.ldMem f.k)
  | 0x81 => some .ldxLen
  | 0x01 => some (.ldxImm f.k)
  | 0x61 => some (.ldxMem f.k)
  | 0xb1 => some (.ldxMsh f.k)
  | 0x02 => some (.st f.k)
  | 0x03 => some (.stx f.k)
  | 0x04 => some (.alu .add (.k f.k))
  | 0x0c => some (.alu .add .x)
  | 0x14 => some (.alu .sub (.k f.k))
  | 0x1c => some (.alu .sub .x)
  | 0x24 => some (.alu .mul (.k f.k))
  | 0x2c => some (.alu .mul .x)
  | 0x34 => some (.alu .div (.k f.k))
  | 0x3c => some (.alu .div .x)
  | 0x44 => some (.alu .or (.k f.k))
  | 0x4c => some (.alu .or .x)
  | 0x54 => some (.alu .and (.k f.k))
  | 0x5c => some (.alu .and .x)
  | 0x64 => some (.alu .lsh (.k f.k))
  | 0x6c => some (.alu .lsh .x)
  | 0x74 => some (.alu .rsh (.k f.k))
  | 0x7c => some (.alu .rsh .x)
  | 0x84 => some .neg
  | 0x94 => some (.alu .mod (.k f.k))
  | 0x9c => some (.alu .mod .x)
  | 0xa4 => some (.alu .xor (.k f.k))
  | 0xac => some (.alu .xor .x)
  | 0x05 => some (.ja f.k)
  | 0x15 => some (.jmp .eq (.k f.k) f.jt f.jf)
  | 0x1d => some (.jmp .eq .x f.jt f.jf)
  | 0x25 => some (.jmp .gt (.k f.k) f.jt f.jf)
  | 0x2d => some (.jmp .gt .x f.jt f.jf)
  | 0x35 => some (.jmp .ge (.k f.k) f.jt f.jf)
  | 0x3d => some (.jmp .ge .x f.jt f.jf)
  | 0x45 => some (.jmp .set (.k f.k) f.jt f.jf)
  | 0x4d => some (.jmp .set .x f.jt f.jf)
  | 0x06 => some (.retK f.k)
  | 0x16 => some .retA
  | 0x07 => some .tax
  | 0x87 => some .txa
  | _ => none

/-! ## The machine -/

/-- The registers and the memory. -/
structure State where
  a : UInt32
  x : UInt32
  mem : Nat → UInt32

/-- The registers and the memory at first. -/
def State.init : State := ⟨0, 0, fun _ => 0⟩

/-- What an instruction does. -/
inductive Outcome where
  /-- The filter goes on that many instructions behind the next one. -/
  | next (off : Nat) (s : State)
  /-- The filter returns. -/
  | ret (v : UInt32)

variable {frame : List UInt8} {s : State}

/-- The number in network byte order at an offset of the frame. Offsets from `2^31` on, by which the
kernel addresses other data, are beyond the end here. -/
def loadAt (frame : List UInt8) (off n : Nat) : Option UInt32 :=
  if off + n ≤ frame.length then some (UInt32.ofNat (leNat ((frame.drop off).take n).reverse)) else none

/-- A load into a register. -/
def Outcome.load (v : Option UInt32) (f : UInt32 → State) : Outcome :=
  match v with
  | none => .ret 0
  | some v => .next 0 (f v)

/-- The value of the second operand. -/
def Src.value (s : State) : Src → UInt32
  | .k v => v
  | .x => s.x

/-- An operation on the accumulator, unless it divides by zero. -/
def AluOp.apply (a b : UInt32) : AluOp → Option UInt32
  | .add => some (a + b)
  | .sub => some (a - b)
  | .mul => some (a * b)
  | .div => if b = 0 then none else some (a / b)
  | .or => some (a ||| b)
  | .and => some (a &&& b)
  | .lsh => some (a <<< b)
  | .rsh => some (a >>> b)
  | .mod => if b = 0 then none else some (a % b)
  | .xor => some (a ^^^ b)

/-- Whether a condition holds of the accumulator and the second operand. -/
def Cond.holds (a b : UInt32) : Cond → Bool
  | .eq => a == b
  | .gt => b < a
  | .ge => b ≤ a
  | .set => a &&& b != 0

/-- What an instruction does with a frame. -/
def exec (frame : List UInt8) (s : State) : Instr → Outcome
  | .ldAbs size k => .load (loadAt frame k.toNat size.bytes) fun v => { s with a := v }
  | .ldInd size k => .load (loadAt frame (s.x + k).toNat size.bytes) fun v => { s with a := v }
  | .ldLen => .next 0 { s with a := UInt32.ofNat frame.length }
  | .ldImm k => .next 0 { s with a := k }
  | .ldMem k => .next 0 { s with a := s.mem k.toNat }
  | .ldxLen => .next 0 { s with x := UInt32.ofNat frame.length }
  | .ldxImm k => .next 0 { s with x := k }
  | .ldxMem k => .next 0 { s with x := s.mem k.toNat }
  | .ldxMsh k => .load (loadAt frame k.toNat 1) fun v => { s with x := 4 * (v &&& 0xf) }
  | .st k => .next 0 { s with mem := fun i => if i = k.toNat then s.a else s.mem i }
  | .stx k => .next 0 { s with mem := fun i => if i = k.toNat then s.x else s.mem i }
  | .alu op src => .load (op.apply s.a (src.value s)) fun v => { s with a := v }
  | .neg => .next 0 { s with a := -s.a }
  | .ja k => .next k.toNat s
  | .jmp cond src jt jf => .next (if cond.holds s.a (src.value s) then jt.toNat else jf.toNat) s
  | .retK k => .ret k
  | .retA => .ret s.a
  | .tax => .next 0 { s with x := s.a }
  | .txa => .next 0 { s with a := s.x }

/-- At most `n` instructions of what is left of a program. There is no result if it comes to an end
without a return, or to a code that stands for no instruction. -/
def run (frame : List UInt8) : Nat → List SockFilter → State → Option UInt32
  | 0, _, _ => none
  | _ + 1, [], _ => none
  | n + 1, f :: rest, s =>
    (decode f).bind fun i =>
      match exec frame s i with
      | .ret v => some v
      | .next off s => run frame n (rest.drop off) s

/-- What a filter returns for a frame. As its jumps go forward, it executes each instruction at most
once. -/
def filter (code : List SockFilter) (frame : List UInt8) : Option UInt32 :=
  run frame code.length code .init

/-! ## Rules for the instructions of a filter -/

variable {n : Nat} {f : SockFilter} {rest : List SockFilter}

theorem run_ret {v : UInt32} (hf : decode f = some (.retK v)) :
    run frame (n + 1) (f :: rest) s = some v := by
  rw [run, hf, Option.bind_some]
  rfl

theorem run_ldAbs {size : Width} {k v : UInt32} (hf : decode f = some (.ldAbs size k))
    (hv : loadAt frame k.toNat size.bytes = some v) :
    run frame (n + 1) (f :: rest) s = run frame n rest { s with a := v } := by
  rw [run, hf, Option.bind_some, exec, hv]
  rfl

theorem run_ldAbs_short {size : Width} {k : UInt32} (hf : decode f = some (.ldAbs size k))
    (hv : loadAt frame k.toNat size.bytes = none) : run frame (n + 1) (f :: rest) s = some 0 := by
  rw [run, hf, Option.bind_some, exec, hv]
  rfl

/-- A jump that is taken if the accumulator has the value. -/
theorem run_jeq_eq {v : UInt32} {jt jf : UInt8} (hf : decode f = some (.jmp .eq (.k v) jt jf))
    (h : s.a = v) : run frame (n + 1) (f :: rest) s = run frame n (rest.drop jt.toNat) s := by
  rw [run, hf, Option.bind_some]
  simp only [exec, Cond.holds, Src.value, h, beq_self_eq_true, if_true]

theorem run_jeq_ne {v : UInt32} {jt jf : UInt8} (hf : decode f = some (.jmp .eq (.k v) jt jf))
    (h : s.a ≠ v) : run frame (n + 1) (f :: rest) s = run frame n (rest.drop jf.toNat) s := by
  rw [run, hf, Option.bind_some]
  simp only [exec, Cond.holds, Src.value, beq_iff_eq, h, if_false]

theorem loadAt_none {off n : Nat} (h : frame.length < off + n) : loadAt frame off n = none :=
  if_neg (Nat.not_le.mpr h)

theorem loadAt_one {off : Nat} (h : off < frame.length) :
    loadAt frame off 1 = some (UInt32.ofNat (frame[off]).toNat) := by
  rw [loadAt, if_pos (Nat.succ_le_of_lt h), List.drop_eq_getElem_cons h]
  rfl

theorem loadAt_two {off : Nat} (h : off + 1 < frame.length) :
    loadAt frame off 2 =
      some (UInt32.ofNat ((frame[off + 1]).toNat + 256 * (frame[off]).toNat)) := by
  rw [loadAt, if_pos (Nat.succ_le_of_lt h), List.drop_eq_getElem_cons (Nat.lt_of_succ_lt h),
    List.drop_eq_getElem_cons h]
  rfl

/-! ## Filters that return -/

/-- Where an instruction may go on, behind the next one. -/
def Instr.targets : Instr → List Nat
  | .ja k => [k.toNat]
  | .jmp _ _ jt jf => [jt.toNat, jf.toNat]
  | .retK _ => []
  | .retA => []
  | _ => [0]

/-- What `bpf_check_classic` asks of codes and jumps: every instruction goes on within the filter, so
that the last one returns. -/
def closed : List SockFilter → Bool
  | [] => true
  | f :: rest => (decode f).any (fun i => i.targets.all (· < rest.length)) && closed rest

theorem mem_targets_load {v : Option UInt32} {g : UInt32 → State} {off : Nat} {s' : State}
    (h : Outcome.load v g = .next off s') : off = 0 := by
  cases v with
  | none => cases h
  | some v =>
    cases h
    rfl

theorem mem_targets {i : Instr} {off : Nat} {s' : State} (h : exec frame s i = .next off s') :
    off ∈ i.targets := by
  cases i with
  | ldAbs | ldInd | ldxMsh | alu => exact List.mem_singleton.mpr (mem_targets_load h)
  | ja =>
    cases h
    exact List.mem_singleton_self _
  | jmp =>
    cases h
    refine List.mem_cons.mpr ?_
    split
    · exact .inl rfl
    · exact .inr (List.mem_singleton_self _)
  | retK | retA => cases h
  | _ =>
    cases h
    exact List.mem_singleton_self 0

theorem closed_drop {code : List SockFilter} (h : closed code = true) (off : Nat) :
    closed (code.drop off) = true := by
  induction code generalizing off with
  | nil => rw [List.drop_nil, closed]
  | cons f rest ih =>
    cases off with
    | zero => exact h
    | succ off =>
      rw [closed, Bool.and_eq_true] at h
      exact ih h.2 off

/-- A filter that stays within itself returns, whatever the frame is. -/
theorem run_isSome {code : List SockFilter} (h : closed code = true) (hpos : 0 < code.length)
    (hn : code.length ≤ n) : (run frame n code s).isSome := by
  induction n generalizing code s with
  | zero => omega
  | succ n ih =>
    match code, hpos with
    | f :: rest, _ =>
      have hrest := closed_drop h 1
      rw [closed, Bool.and_eq_true, Option.any_eq_true] at h
      obtain ⟨⟨i, hi, hin⟩, -⟩ := h
      rw [List.all_eq_true] at hin
      rw [run, hi, Option.bind_some]
      split
      · rfl
      · next off s' hnext =>
        have hlt := of_decide_eq_true (hin off (mem_targets hnext))
        rw [List.length_cons] at hn
        refine ih (closed_drop hrest off) ?_ ?_
        · rw [List.length_drop]
          omega
        · rw [List.length_drop]
          omega

theorem filter_isSome {code : List SockFilter} (h : closed code = true) (hpos : 0 < code.length)
    (frame : List UInt8) : (filter code frame).isSome := run_isSome h hpos (Nat.le_refl _)

end Bpf
