import LinuxHandson.Dns.Names
import LinuxHandson.Lib.Endless

/-!
# Pointers that lead back

`parse_name` follows a pointer to any place of the packet. Where pointers, and the bytes after them,
lead back to a place without anything that is written, its loop goes round for ever.
-/

namespace DnsClient

open CLib Relation

/-- A call of `parse_name`: the packet and the output are at least as long as the lengths say, and an
`int` counts the bytes of the packet. -/
structure ParseCall where
  pkt : List UInt8
  pktlen : Int
  offset : Int
  out : List UInt8
  outsize : Int
  readable : pktlen ≤ pkt.length
  writable : outsize ≤ out.length
  isInt : pkt.length < 2 ^ 31

namespace ParseCall

variable (c : ParseCall)

/-- The state in which the loop starts. -/
def start : ParseState := ⟨c.offset, 0, false, 0, c.out⟩

/-- A round of the call. -/
def round : ParseState → Round ParseState (Int × List UInt8) := parseRound c.pkt c.pktlen c.outsize

/-- The loop goes on after any number of rounds. -/
def Hangs : Prop := Forever c.round c.start

/-- `parse_name` returns. -/
def Returns : Prop := ∃ r, ParseName c.pkt c.pktlen c.outsize c.offset c.out r

/-- There is a byte after the packet, room for the NUL, and an offset that is no negative number. -/
structure Roomy : Prop where
  after : c.pktlen < c.pkt.length
  room : 1 ≤ c.outsize
  offset_nonneg : 0 ≤ c.offset

/-- The packet has the byte `b` at `p`. -/
def HasByte (p : Int) (b : UInt8) : Prop := p < c.pktlen ∧ byteAt c.pkt p = some b

/-- A pointer to `p'` at `p`. -/
def PointerAt (p p' : Int) : Prop :=
  ∃ high low, c.HasByte p high ∧ high &&& 0xC0 = 0xC0 ∧ byteAt c.pkt (p + 1) = some low ∧
    p' = ((high &&& 0x3F).toNat <<< 8 ||| low.toNat : Nat)

/-- A label at `p`, of `n` bytes as its first byte says. -/
def LabelAt (p : Int) (n : Nat) : Prop :=
  ∃ len : UInt8, c.HasByte p len ∧ len ≠ 0 ∧ len &&& 0xC0 ≠ 0xC0 ∧ len.toNat = n

/-- The dot that is written before a label when `o` bytes have been written. -/
def dotLen (o : Nat) : Nat := if 0 < o ∧ (o : Int) < c.outsize - 1 then 1 else 0

/-- The bytes of a label of `n` bytes at `p` that are copied: those in the packet that have room. -/
def copied (p : Int) (n o : Nat) : Nat := min n (min (c.pktlen - p).toNat (c.outsize - 1 - o).toNat)

/-- A step of the loop that writes nothing when `o` bytes have been written: a pointer, or the first byte
of a label if the output is full. -/
def Idle (o : Nat) (p p' : Int) : Prop :=
  c.PointerAt p p' ∨ ((∃ n, c.LabelAt p n) ∧ c.outsize - 1 ≤ o ∧ p' = p + 1)

/-- From `p`, when `o` bytes have been written, the labels and pointers of the packet lead to a place
from which idle steps lead back to it. -/
inductive Circles : Int → Nat → Prop where
  | cycle {p : Int} {o : Nat} (h : TransGen (c.Idle o) p p) : Circles p o
  | pointer {p p' : Int} {o : Nat} (hp : c.PointerAt p p') (h : Circles p' o) : Circles p o
  | label {p : Int} {n o : Nat} (hp : c.LabelAt p n)
      (h : Circles (p + 1 + c.copied (p + 1) n (o + c.dotLen o))
        (o + c.dotLen o + c.copied (p + 1) n (o + c.dotLen o))) : Circles p o

end ParseCall

end DnsClient
