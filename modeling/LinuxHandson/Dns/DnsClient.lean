import LinuxHandson.Lib.CInt
import LinuxHandson.Lib.CMemory
import LinuxHandson.Lib.CString
import LinuxHandson.Lib.Loop

/-!
# Names of the DNS client

`encode_name` and `parse_name`, each as the rounds of its loop. A position is the mathematical value
of an `int`; it is below a length that is itself an `int` wherever the code adds to it, but for the
position that is saved at a pointer and the sum that is compared with `bufsize`.
-/

namespace DnsClient

open CLib

/-- The dot between two labels. -/
def dot : UInt8 := 0x2E

/-! ## `encode_name` -/

/-- The variables of `encode_name`. -/
structure EncodeState where
  p : CStr
  pos : Int
  buf : List UInt8

/-- `len`: the length up to the next dot, or to the end. -/
def labelLen (p : CStr) : Int :=
  match strchr p dot with
  | some d => cInt (strlen p - strlen d)
  | none => cInt (strlen p)

/-- `p += len`, and one more at a dot. -/
def skipLabel (p : CStr) (len : Nat) : CStr :=
  if (p.offset len).charAt 0 = dot then p.offset (len + 1) else p.offset len

/-- After the loop: the root label. -/
def putRoot (bufsize : Int) (s : EncodeState) : Option (Int × List UInt8) :=
  if bufsize ≤ s.pos then some (-1, s.buf)
  else (store s.buf s.pos [0]).map fun buf => (s.pos + 1, buf)

/-- The length byte and the bytes of a label. A negative `len` is a huge number of bytes for
`memcpy`. -/
def putLabel (s : EncodeState) : Option EncodeState :=
  if labelLen s.p < 0 then none
  else
    (store s.buf s.pos [UInt8.ofNat (labelLen s.p).toNat]).bind fun buf =>
      (store buf (s.pos + 1) (s.p.bytes.take (labelLen s.p).toNat)).map fun buf =>
        ⟨skipLabel s.p (labelLen s.p).toNat, s.pos + 1 + labelLen s.p, buf⟩

/-- A round of the loop of `encode_name`, or what follows the loop. -/
def encodeRound (bufsize : Int) (s : EncodeState) : Round EncodeState (Int × List UInt8) :=
  .ofOption <|
    if s.p.bytes = [] then (putRoot bufsize s).map .done
    else (intArith (s.pos + 1 + labelLen s.p)).bind fun last =>
      if bufsize ≤ last then some (.done (-1, s.buf))
      else (putLabel s).map .again

/-- `encode_name` returns `r.1` and leaves `r.2` in the buffer. -/
def EncodeName (name : CStr) (buf : List UInt8) (bufsize : Int) (r : Int × List UInt8) : Prop :=
  Ends (encodeRound bufsize) ⟨name, 0, buf⟩ r

/-! ## `parse_name` -/

/-- The variables of `parse_name`. -/
structure ParseState where
  pos : Int
  outPos : Int
  jumped : Bool
  savedPos : Int
  out : List UInt8

section Parse

variable (pkt : List UInt8) (pktlen outsize : Int)

/-- After the loop: the NUL and the return value. -/
def finish (s : ParseState) : Option (Int × List UInt8) :=
  (store s.out s.outPos [0]).map fun out => (if s.jumped then s.savedPos else s.pos, out)

/-- A compression pointer whose first byte is `len`. -/
def followPointer (s : ParseState) (len : UInt8) : Option ParseState :=
  (if s.jumped then some s.savedPos else intArith (s.pos + 2)).bind fun saved =>
    (byteAt pkt (s.pos + 1)).map fun low =>
      { s with
        pos := ((len &&& 0x3F).toNat <<< 8 ||| low.toNat : Nat)
        jumped := true
        savedPos := saved }

/-- The dot before every label but the first. -/
def putDot (s : ParseState) : Option ParseState :=
  if 0 < s.outPos ∧ s.outPos < outsize - 1 then
    (store s.out s.outPos [dot]).map fun out => { s with outPos := s.outPos + 1, out := out }
  else some s

/-- The loop over the bytes of a label, of which `n` are left. -/
def copyLabel : Nat → ParseState → Option ParseState
  | 0, s => some s
  | n + 1, s =>
    if s.pos < pktlen ∧ s.outPos < outsize - 1 then
      (byteAt pkt s.pos).bind fun b =>
        (store s.out s.outPos [b]).bind fun out =>
          copyLabel n { s with pos := s.pos + 1, outPos := s.outPos + 1, out := out }
    else some s

/-- A round of the loop of `parse_name`, or what follows the loop. -/
def parseRound (s : ParseState) : Round ParseState (Int × List UInt8) :=
  .ofOption <|
    if s.pos < pktlen then
      (byteAt pkt s.pos).bind fun len =>
        if len = 0 then (finish { s with pos := s.pos + 1 }).map .done
        else if len &&& 0xC0 = 0xC0 then (followPointer pkt s len).map .again
        else ((putDot outsize { s with pos := s.pos + 1 }).bind
          (copyLabel pkt pktlen outsize len.toNat)).map .again
    else (finish s).map .done

/-- `parse_name` returns `r.1` and leaves `r.2` in `out`. -/
def ParseName (offset : Int) (out : List UInt8) (r : Int × List UInt8) : Prop :=
  Ends (parseRound pkt pktlen outsize) ⟨offset, 0, false, 0, out⟩ r

end Parse

end DnsClient
