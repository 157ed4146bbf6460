import LinuxHandson.Lib.Lockstep

/-!
# The checksum of `elf_artifact.c`

`compute_checksum` on an `int` of 32 bits, as gcc has it on x86-64: a `char` is signed, `<<` and `+`
wrap, and `>>` brings in copies of the sign bit.
-/

namespace ElfArtifact

/-- `(checksum << 3) | (checksum >> 29)` -/
def rotate (checksum : BitVec 32) : BitVec 32 := (checksum <<< 3) ||| checksum.sshiftRight 29

/-- `checksum ^ c` -/
def mix (checksum : BitVec 32) (c : BitVec 8) : BitVec 32 := checksum ^^^ c.signExtend 32

/-- A round of the loop, in which `data[i]` is `c`. -/
def round (i : Nat) (checksum : BitVec 32) (c : BitVec 8) : BitVec 32 :=
  rotate (mix checksum c) + BitVec.ofNat 32 i

/-- `k` rounds of the loop, from round `i`. A read past the end of `data` is undefined. -/
def loop (data : List (BitVec 8)) : Nat → Nat → BitVec 32 → Option (BitVec 32)
  | 0, _, checksum => some checksum
  | k + 1, i, checksum => data[i]?.bind fun c => loop data k (i + 1) (round i checksum c)

/-- `compute_checksum` -/
def computeChecksum (data : List (BitVec 8)) (len : Nat) : Option (BitVec 32) := loop data len 0 0

/-- `global_message`, whose checksum `main` prints. -/
def globalMessage : List (BitVec 8) :=
  ['V', 'i', 's', 'i', 'b', 'l', 'e', ' ', 'i', 'n', ' ', '.', 'd', 'a', 't', 'a', ' ', 's', 'e', 'c',
    't', 'i', 'o', 'n'].map fun c => BitVec.ofNat 8 c.toNat

/-- Two different values that `rotate` makes one: both are negative, and they have the same three bits at
the top. -/
def Merge (x y : BitVec 32) : Prop := x ≠ y ∧ x.msb = true ∧ y.msb = true ∧ x >>> 29 = y >>> 29

/-- No round of the loops over two strings merges their checksums. -/
def NeverMerge (data1 data2 : List (BitVec 8)) : Prop :=
  Lockstep.Always round (fun s a t b => ¬ Merge (mix s a) (mix t b)) 0 0 0 data1 data2

/-- What a checksum promises of two strings: their values are different. -/
def Detects (data1 data2 : List (BitVec 8)) : Prop :=
  ∃ x y, computeChecksum data1 data1.length = some x ∧ computeChecksum data2 data2.length = some y ∧
    x ≠ y

end ElfArtifact
