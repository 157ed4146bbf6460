import LinuxHandson.Lib.Bytes
import LinuxHandson.Lib.Socket

/-!
# The mini protocol (`protocol.h`)

The header and its checks, and the functions `read_all`, `write_all` and `send_message`, of which
`mini_server.c` and `mini_client.c` have identical copies.
-/

namespace MiniProtocol

open CLib

variable {ε : Type}

/-- `PROTO_MAGIC` -/
def protoMagic : UInt32 := 0x4D494E49

/-- `PROTO_VERSION` -/
def protoVersion : UInt8 := 1

/-- `MSG_HELLO` -/
def msgHello : UInt8 := 0x01

/-- `MSG_DATA` -/
def msgData : UInt8 := 0x02

/-- `MSG_STATUS` -/
def msgStatus : UInt8 := 0x03

/-- `MSG_BYE` -/
def msgBye : UInt8 := 0x04

/-- `MSG_ACK` -/
def msgAck : UInt8 := 0x80

/-- `MSG_ERROR` -/
def msgError : UInt8 := 0xFF

/-- `MAX_PAYLOAD` -/
def maxPayload : UInt32 := 4096

/-- `struct proto_header`: the values of its fields as the machine reads them, which after
`proto_fill_header` or a `read` are in network byte order. -/
structure ProtoHeader where
  magic : UInt32
  version : UInt8
  msgType : UInt8
  seq : UInt16
  payloadLen : UInt32
deriving DecidableEq

/-- `sizeof(struct proto_header)` -/
def sizeofHeader : Nat := 12

/-- The bytes of the packed structure. -/
def ProtoHeader.image (h : ProtoHeader) : List UInt8 :=
  leBytes 4 h.magic.toNat ++ (h.version :: h.msgType :: (leBytes 2 h.seq.toNat ++
    leBytes 4 h.payloadLen.toNat))

/-- The structure over which bytes have been stored. -/
def ProtoHeader.ofImage (b : List UInt8) : ProtoHeader where
  magic := UInt32.ofNat (leNat (b.take 4))
  version := b.getD 4 0
  msgType := b.getD 5 0
  seq := UInt16.ofNat (leNat ((b.drop 6).take 2))
  payloadLen := UInt32.ofNat (leNat ((b.drop 8).take 4))

/-- `ntohl`, which is `htonl` -/
abbrev ntohl (x : UInt32) : UInt32 := htonl x

/-- `ntohs`, which is `htons` -/
abbrev ntohs (x : UInt16) : UInt16 := htons x

/-- `proto_fill_header` -/
def protoFillHeader (type : UInt8) (seq : UInt16) (payloadLen : UInt32) : ProtoHeader where
  magic := htonl protoMagic
  version := protoVersion
  msgType := type
  seq := htons seq
  payloadLen := htonl payloadLen

/-- `proto_validate_header` -/
def protoValidateHeader (h : ProtoHeader) : Int :=
  if ntohl h.magic ≠ protoMagic then -1
  else if h.version ≠ protoVersion then -2
  else if ntohl h.payloadLen > maxPayload then -3
  else 0

/-- The loop of `read_all`, with the bytes read so far in `buf`. -/
def readLoop : Nat → Nat → List UInt8 → SockProg ε (Int × List UInt8)
  | 0, _, _ => .stuck
  | fuel + 1, n, buf =>
    if buf.length < n then do
      match ← sysRead (n - buf.length) with
      | none => return (-1, buf)
      | some [] => return (0, buf)
      | some (b :: bs) => readLoop fuel n (buf ++ b :: bs)
    else return (buf.length, buf)

/-- `read_all`: the return value and the bytes stored in the buffer. Each round of the loop stores
at least one byte, so that it has at most `n` of them. -/
def readAll (n : Nat) : SockProg ε (Int × List UInt8) := readLoop (n + 1) n []

/-- The loop of `write_all`, of which `total` bytes are written. -/
def writeLoop : Nat → List UInt8 → Nat → SockProg ε Int
  | 0, _, _ => .stuck
  | fuel + 1, buf, total =>
    if total < buf.length then do
      match ← sysWrite (buf.drop total) with
      | none => return -1
      | some 0 => return 0
      | some (w + 1) => writeLoop fuel buf (total + (w + 1))
    else return total

/-- `write_all` -/
def writeAll (buf : List UInt8) : SockProg ε Int := writeLoop (buf.length + 1) buf 0

/-- `send_message`; `none` stands for a payload of `NULL`. -/
def sendMessage (type : UInt8) (seq : UInt16) (payload : Option (List UInt8))
    (payloadLen : UInt32) : SockProg ε Unit := do
  let _ ← writeAll (protoFillHeader type seq payloadLen).image
  match payload with
  | none => return ()
  | some p => if payloadLen > 0 then let _ ← writeAll (p.take payloadLen.toNat)

/-! ## Messages -/

/-- A message that fits into a frame. -/
structure Message where
  type : UInt8
  seq : UInt16
  payload : List UInt8
  /-- The payload has at most `MAX_PAYLOAD` bytes. -/
  fits : payload.length ≤ 4096
deriving DecidableEq

namespace Message

variable (m : Message)

/-- `payload_len` -/
def len : UInt32 := UInt32.ofNat m.payload.length

/-- The header in memory. -/
def header : ProtoHeader := protoFillHeader m.type m.seq m.len

/-- The frame: the header and the payload. -/
def encode : List UInt8 := m.header.image ++ m.payload

/-- The type, the sequence number and the payload. -/
def parts : UInt8 × UInt16 × List UInt8 := (m.type, m.seq, m.payload)

end Message

/-- The message of a header that `proto_validate_header` has accepted, and the payload after it. -/
def ProtoHeader.parts (h : ProtoHeader) (payload : List UInt8) : UInt8 × UInt16 × List UInt8 :=
  (h.msgType, ntohs h.seq, payload)

end MiniProtocol
