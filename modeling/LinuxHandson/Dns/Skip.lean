import LinuxHandson.Dns.Bounds

/-!
# What a name takes of the packet

The part of a name in place ends with the root label, with its first pointer, or with the packet. When
the output is full, `parse_name` goes on in the middle of a label and takes its bytes for length bytes.
-/

namespace DnsClient

open CLib

namespace ParseCall

variable (c : ParseCall)

/-- A call on the same name, with any output that has room for the NUL. -/
inductive SameName : ParseCall → Prop where
  | mk {out : List UInt8} {outsize : Int} (writable : outsize ≤ out.length) (room : 1 ≤ outsize) :
      SameName { c with out := out, outsize := outsize, writable := writable }

/-- `parse_name` returns the position `pos`. -/
def ReturnsAt (pos : Int) : Prop :=
  ∃ out, ParseName c.pkt c.pktlen c.outsize c.offset c.out (pos, out)

/-- The end of a label of `n` bytes at `p`, or of the packet if it comes first. -/
def labelEnd (p : Int) (n : Nat) : Int := min (p + 1 + n) c.pktlen

/-- The part in place of the name at `p` ends before `next`. -/
inductive NameEnd : Int → Int → Prop where
  | packet {p : Int} (h : c.pktlen ≤ p) : NameEnd p p
  | root {p : Int} (h : c.HasByte p 0) : NameEnd p (p + 1)
  | pointer {p : Int} {b : UInt8} (h : c.HasByte p b) (hb : b &&& 0xC0 = 0xC0) : NameEnd p (p + 2)
  | label {p next : Int} {n : Nat} (hp : c.LabelAt p n) (h : NameEnd (c.labelEnd p n) next) :
      NameEnd p next

/-- `q` is the place of a byte of a label in the part in place of the name at `p`, after the length
byte. -/
inductive InLabel : Int → Int → Prop where
  | here {p q : Int} {n : Nat} (hp : c.LabelAt p n) (hlt : p < q) (hq : q < c.labelEnd p n) :
      InLabel p q
  | later {p q : Int} {n : Nat} (hp : c.LabelAt p n) (h : InLabel (c.labelEnd p n) q) : InLabel p q

/-- The returned position does not depend on the output. -/
def Independent : Prop :=
  ∀ d d', c.SameName d → c.SameName d' → ∀ p p', d.ReturnsAt p → d'.ReturnsAt p' → p = p'

/-- Whatever the output, the part in place of the name is skipped as a whole. -/
def SkipsWhole : Prop := ∀ d, c.SameName d → ∀ p, d.ReturnsAt p → c.NameEnd c.offset p

/-- The call with room for the NUL only: the output is full from the start. -/
def full : ParseCall := { c with out := [0], outsize := 1, writable := Int.le_refl 1 }

/-- No byte of the labels, taken for a length byte, ends the name at another place: neither a zero nor,
if what it points to ends, the first byte of a pointer. -/
def HarmlessBytes : Prop :=
  ∀ next, c.NameEnd c.offset next → ∀ q b, c.InLabel c.offset q → c.HasByte q b →
    (b = 0 → q + 1 = next) ∧
      (b &&& 0xC0 = 0xC0 → ¬ c.full.Circles q 0 → ¬ c.full.Breaks q 0 → q + 2 = next)

end ParseCall

end DnsClient
