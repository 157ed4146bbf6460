import LinuxHandson.Network.CustomProtocol

/-!
# A packet in pieces

The data of a packet is a linear part, to which `skb->data` points, and pages behind it.
`custom_proto_rcv` pulls the header into the linear part and reads everything through `skb->data`. A
read beyond the linear part has no result.
-/

namespace CustomProtocol

open CLib

/-- `struct sk_buff` -/
structure SkBuff where
  data : List UInt8
  /-- The number of bytes in the linear part. -/
  headlen : Nat
  headlen_le : headlen ≤ data.length
  len_lt : data.length < 2 ^ 32

/-- The bytes at `skb->data + off`. -/
def SkBuff.read (skb : SkBuff) (off n : Nat) : Option (List UInt8) :=
  if off + n ≤ skb.headlen then some ((skb.data.drop off).take n) else none

/-- What `pskb_may_pull(skb, n)` may do: it fails, or the first `n` bytes are in the linear part. -/
inductive MayPull (n : Nat) (skb : SkBuff) : Option SkBuff → Prop where
  | fails : MayPull n skb none
  | pulled {skb' : SkBuff} (same : skb'.data = skb.data) (within : n ≤ skb'.headlen) :
    MayPull n skb (some skb')

/-- `plen`, as the handler passes it to `%*ph` for a packet longer than the header. -/
def plenOf (len : Nat) : Int :=
  let plen := cInt ((len : Int) - sizeofHeader)
  if 32 < plen then 32 else plen

/-- How many bytes `%*ph` reads for a width. -/
def phLength (width : Int) : Nat := min width.natAbs 64

/-- The payload that is printed, as `skb->data` gives it. -/
def SkBuff.shown (skb : SkBuff) : Option (List UInt8) :=
  if sizeofHeader < skb.data.length then
    skb.read sizeofHeader (phLength (plenOf skb.data.length))
  else some []

/-- `custom_proto_rcv` on a packet for which `pskb_may_pull` leaves `pulled`. -/
def customProtoRcvSkb (skb : SkBuff) (pulled : Option SkBuff) : Option Verdict :=
  if sizeofHeader ≤ skb.data.length then
    match pulled with
    | none => some .cannotPull
    | some skb =>
      (skb.read 0 sizeofHeader).bind fun bytes =>
        let hdr := CustomHeader.ofImage bytes
        if htonl hdr.magic ≠ customMagic then some (.badMagic (htonl hdr.magic))
        else skb.shown.map fun payload =>
          .parsed ⟨htons hdr.version, htons hdr.msgType, htonl hdr.payloadLen, payload⟩
  else some .short

/-- The packet has a header with the right magic number. -/
def Ours (data : List UInt8) : Prop :=
  sizeofHeader ≤ data.length ∧ htonl (CustomHeader.ofImage data).magic = customMagic

/-- Where the handler comes to the payload, the bytes that it prints are in the linear part. -/
def PayloadLinear (skb : SkBuff) (pulled : Option SkBuff) : Prop :=
  ∀ skb', pulled = some skb' → Ours skb.data → sizeofHeader < skb.data.length →
    sizeofHeader + phLength (plenOf skb.data.length) ≤ skb'.headlen

end CustomProtocol
