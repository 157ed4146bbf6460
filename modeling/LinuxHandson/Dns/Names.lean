import LinuxHandson.Dns.DnsClient

/-!
# Domain names

What a domain name is: its labels, its text, its wire format, and where it is stored in a packet. In a
packet the labels end with the root or go on at a place before the pointer.
-/

namespace DnsClient

open CLib

/-- The text of a name. -/
def text (labels : List (List UInt8)) : List UInt8 := List.intercalate [dot] labels

/-- The text of a name as `encode_name` accepts it, with or without a dot at the end. -/
def domain (labels : List (List UInt8)) (trailing : Bool) : List UInt8 :=
  text labels ++ if trailing then [dot] else []

/-- A label in the wire format. -/
def wireLabel (label : List UInt8) : List UInt8 := UInt8.ofNat label.length :: label

/-- The wire format of a name without compression. -/
def wire (labels : List (List UInt8)) : List UInt8 := labels.flatMap wireLabel ++ [0]

/-- The labels of a text as `encode_name` sees them: what stands between its dots. A dot at the end
starts no label. -/
def nameLabels : List UInt8 → List (List UInt8)
  | [] => []
  | b :: text =>
    (b :: text).takeWhile (· != dot) :: nameLabels (((b :: text).dropWhile (· != dot)).drop 1)
termination_by text => text.length
decreasing_by
  have := (List.dropWhile_suffix (l := b :: text) (· != dot)).length_le
  rw [List.length_cons] at this
  rw [List.length_drop, List.length_cons]
  omega

/-- A length byte of a label that is neither the root nor part of a pointer. -/
def LengthOk (label : List UInt8) : Prop := 1 ≤ label.length ∧ label.length ≤ 63

/-- The bytes are a name: labels with length bytes from 1 to 63, and the root as the last byte. -/
def ValidWire (b : List UInt8) : Prop := ∃ labels, (∀ label ∈ labels, LengthOk label) ∧ b = wire labels

/-- A label as it can be written in a text. -/
structure IsLabel (label : List UInt8) : Prop where
  nonempty : label ≠ []
  length_le : label.length ≤ 63
  noDot : dot ∉ label
  nulFree : 0 ∉ label

/-- The name with these labels is stored at `pos`, and its part in place ends before `next`. -/
inductive NameAt (pkt : List UInt8) : Nat → List (List UInt8) → Nat → Prop where
  | root {pos : Nat} (h : pkt[pos]? = some 0) : NameAt pkt pos [] (pos + 1)
  | label {pos next : Nat} {label : List UInt8} {labels : List (List UInt8)} (hne : label ≠ [])
      (hlen : label.length ≤ 63) (h : pkt[pos]? = some (UInt8.ofNat label.length))
      (hbytes : (pkt.drop (pos + 1)).take label.length = label)
      (hrest : NameAt pkt (pos + 1 + label.length) labels next) :
      NameAt pkt pos (label :: labels) next
  | pointer {pos target next : Nat} {high low : UInt8} {labels : List (List UInt8)}
      (hhigh : pkt[pos]? = some high) (hlow : pkt[pos + 1]? = some low) (hbits : 0xC0 ≤ high)
      (htarget : (high.toNat - 0xC0) * 256 + low.toNat = target) (hback : target < pos)
      (hrest : NameAt pkt target labels next) : NameAt pkt pos labels (pos + 2)

/-- What a caller relies on after `encode_name` has returned `ret` and left `encoded` in a buffer of
`bufsize` bytes: only a buffer that is too small is refused, and `parse_name` gets the name back. -/
structure Encoded (labels : List (List UInt8)) (bufsize : Nat) (ret : Int) (encoded : List UInt8) :
    Prop where
  refused_iff : ret = -1 ↔ bufsize < (wire labels).length
  length_eq : ret ≠ -1 → ret = (wire labels).length
  expands : ret ≠ -1 → ∀ (out : List UInt8) (outsize : Nat), (text labels).length < outsize →
    outsize ≤ out.length → ∃ out', ParseName (encoded.take ret.toNat) ret outsize 0 out (ret, out') ∧
      (CStr.ofBuf out').bytes = text labels

/-- `encode_name` encodes this text of a name. -/
def RoundTrip (name : CStr) (labels : List (List UInt8)) (buf : List UInt8) (bufsize : Nat) : Prop :=
  ∃ ret encoded, EncodeName name buf bufsize (ret, encoded) ∧ Encoded labels bufsize ret encoded

end DnsClient
