import LinuxHandson.Lib.Bytes
import LinuxHandson.Lib.CInt
import LinuxHandson.Lib.CMemory
import LinuxHandson.Lib.CString

/-!
# A protocol on top of Ethernet

The frame that `send_custom_packet` builds and the handler `custom_proto_rcv` of the kernel module. The
two programs declare the same header.
-/

namespace CustomProtocol

open CLib

/-- `CUSTOM_ETH_TYPE` -/
def customEthType : UInt16 := 0x88B5

/-- `CUSTOM_MAGIC` -/
def customMagic : UInt32 := 0xDEADBEEF

/-- `struct custom_header`: the values of its fields as the machine reads them. -/
structure CustomHeader where
  magic : UInt32
  version : UInt16
  msgType : UInt16
  payloadLen : UInt32
deriving DecidableEq

/-- `sizeof(struct custom_header)` -/
def sizeofHeader : Nat := 12

/-- The bytes of the packed structure. -/
def CustomHeader.image (h : CustomHeader) : List UInt8 :=
  leBytes 4 h.magic.toNat ++ (leBytes 2 h.version.toNat ++ (leBytes 2 h.msgType.toNat ++
    leBytes 4 h.payloadLen.toNat))

/-- The structure at the beginning of some bytes. -/
def CustomHeader.ofImage (b : List UInt8) : CustomHeader where
  magic := UInt32.ofNat (leNat (b.take 4))
  version := UInt16.ofNat (leNat ((b.drop 4).take 2))
  msgType := UInt16.ofNat (leNat ((b.drop 6).take 2))
  payloadLen := UInt32.ofNat (leNat ((b.drop 8).take 4))

/-! ## The sender -/

/-- The array `frame` and the index `pos`. -/
structure Frame where
  frame : List UInt8
  pos : Nat

/-- `memcpy(frame + pos, src, n); pos += n;` -/
def Frame.put (f : Frame) (src : List UInt8) : Option Frame :=
  (store f.frame f.pos src).map fun b => ⟨b, f.pos + src.length⟩

/-- `while (pos < 60) frame[pos++] = 0;`, which takes at most 60 rounds. -/
def Frame.pad : Nat → Frame → Option Frame
  | 0, f => some f
  | rounds + 1, f => if f.pos < 60 then (f.put [0]).bind fun f' => f'.pad rounds else some f

/-- A MAC address. -/
abbrev Mac := Vector UInt8 6

/-- `dst_mac` -/
def dstMac (ifname : CStr) (srcMac : Mac) : Mac :=
  if ifname.bytes = [0x6C, 0x6F] then srcMac else Vector.replicate 6 0xFF

/-- The header that `main` fills in. -/
def helloHeader (payloadLen : Nat) : CustomHeader where
  magic := htonl customMagic
  version := htons 1
  msgType := htons 1
  payloadLen := htonl (UInt32.ofNat payloadLen)

/-- `main` up to `sendto`, for any payload in the place of its text: the bytes that are sent. The array
`frame` is not initialized. -/
def buildFrame (frame : Vector UInt8 128) (ifname : CStr) (srcMac : Mac) (payload : List UInt8) :
    Option (List UInt8) := do
  let f ← Frame.put ⟨frame.toList, 0⟩ (dstMac ifname srcMac).toList
  let f ← f.put srcMac.toList
  let f ← f.put (leBytes 2 (htons customEthType).toNat)
  let f ← f.put (helloHeader payload.length).image
  let f ← f.put payload
  let f ← f.pad 60
  some (f.frame.take f.pos)

/-! ## The receiver -/

/-- What the handler reports about a packet that it parses. -/
structure Report where
  version : UInt16
  msgType : UInt16
  payloadLen : UInt32
  /-- The bytes that it takes for the payload. -/
  payload : List UInt8
deriving DecidableEq

/-- How the handler goes on with a packet. -/
inductive Verdict where
  /-- The packet is shorter than the header. -/
  | short
  /-- `pskb_may_pull` fails. -/
  | cannotPull
  | badMagic (magic : UInt32)
  | parsed (report : Report)
deriving DecidableEq

/-- The payload that is printed: at most 32 bytes of what follows the header. -/
def shownPayload (data : List UInt8) : List UInt8 :=
  if sizeofHeader < data.length then
    (data.drop sizeofHeader).take (min (data.length - sizeofHeader) 32)
  else []

/-- What `custom_proto_rcv` finds in the packet `data`, whose header `pskb_may_pull` makes accessible
if `pulls`. -/
def examine (pulls : Bool) (data : List UInt8) : Verdict :=
  if sizeofHeader ≤ data.length then
    if pulls then
      let hdr := CustomHeader.ofImage data
      if htonl hdr.magic ≠ customMagic then .badMagic (htonl hdr.magic)
      else .parsed ⟨htons hdr.version, htons hdr.msgType, htonl hdr.payloadLen, shownPayload data⟩
    else .cannotPull
  else .short

/-- `custom_proto_rcv`: the counter `rx_count` after the call, and what was found in the packet. -/
def customProtoRcv (rxCount : Nat) (pulls : Bool) (data : List UInt8) : Nat × Verdict :=
  (sizeT (rxCount + 1), examine pulls data)

/-- The handler finds what the sender has put into the frame: its payload cut to 32 bytes. -/
def Faithful (payload : List UInt8) (v : Verdict) : Prop :=
  v = .parsed ⟨1, 1, UInt32.ofNat payload.length, payload.take 32⟩

end CustomProtocol
