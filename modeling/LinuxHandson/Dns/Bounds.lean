import LinuxHandson.Dns.Pointers
import LinuxHandson.Lib.SafeLoop

/-!
# Pointers that are cut off

`parse_name` reads the second byte of a pointer without a look at `pktlen`. Where the first byte is the
last of the packet, it reads after the packet.
-/

namespace DnsClient

open CLib

namespace ParseCall

variable (c : ParseCall)

/-- The call on a packet and an output that end where the lengths say. -/
def cut : ParseCall where
  pkt := c.pkt.take c.pktlen.toNat
  pktlen := c.pktlen
  offset := c.offset
  out := c.out.take c.outsize.toNat
  outsize := c.outsize
  readable := by
    have := c.readable
    rw [List.length_take]
    omega
  writable := by
    have := c.writable
    rw [List.length_take]
    omega
  isInt := by
    have := c.isInt
    rw [List.length_take]
    omega

/-- At every point of the run, `parse_name` reads the packet below `pktlen` and writes the output below
`outsize`: a packet and an output that end there are enough for it. -/
def InBounds : Prop := Safe c.cut.round c.cut.start

/-- A pointer at `p` whose second byte is not in the packet. -/
def BreaksAt (p : Int) : Prop :=
  ∃ high, c.HasByte p high ∧ high &&& 0xC0 = 0xC0 ∧ byteAt c.pkt (p + 1) = none

/-- From `p`, when `o` bytes have been written, the labels and pointers of the packet lead to a pointer
that is cut off. -/
inductive Breaks : Int → Nat → Prop where
  | here {p : Int} {o : Nat} (hp : c.BreaksAt p) : Breaks p o
  | pointer {p p' : Int} {o : Nat} (hp : c.PointerAt p p') (h : Breaks p' o) : Breaks p o
  | label {p : Int} {n o : Nat} (hp : c.LabelAt p n)
      (h : Breaks (p + 1 + c.copied (p + 1) n (o + c.dotLen o))
        (o + c.dotLen o + c.copied (p + 1) n (o + c.dotLen o))) : Breaks p o

end ParseCall

end DnsClient
