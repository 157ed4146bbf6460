import LinuxHandson.MiniProtocol.Protocol

/-!
# The server of the mini protocol (`mini_server.c`)

`handle_client` on one connection. The global variables are passed through; what goes to standard
output is left out.
-/

namespace MiniProtocol

open CLib

/-- `start_time`, `total_connections` and `total_messages`. -/
structure Server where
  startTime : Int
  totalConnections : UInt64
  totalMessages : UInt64
deriving DecidableEq

/-- A point of a session for its log. -/
inductive Event where
  /-- The client is about to send a request. -/
  | request (m : UInt8 × UInt16 × List UInt8)
  /-- The server has received a frame and counted it. -/
  | received (m : UInt8 × UInt16 × List UInt8)
  /-- What `recv_message` gave the client. -/
  | reply (m : Option (UInt8 × UInt16 × List UInt8))
deriving DecidableEq

/-- `"Bad header"` -/
def badHeader : List UInt8 := [0x42, 0x61, 0x64, 0x20, 0x68, 0x65, 0x61, 0x64, 0x65, 0x72]

/-- `"Unknown type"` -/
def unknownType : List UInt8 :=
  [0x55, 0x6E, 0x6B, 0x6E, 0x6F, 0x77, 0x6E, 0x20, 0x74, 0x79, 0x70, 0x65]

/-- The bytes of `struct proto_status`, its fields converted by `htonl`. -/
def protoStatus (uptimeSec connections messages : UInt32) : List UInt8 :=
  leBytes 4 (htonl uptimeSec).toNat ++ leBytes 4 (htonl connections).toNat ++
    leBytes 4 (htonl messages).toNat

/-- The payload after a header of length `payloadLen`, with the return value of `read_all`. Without
a payload the value is that of the header's read. -/
def readPayload (n : Int) (payloadLen : UInt32) : SockProg Event (Int × List UInt8) :=
  if payloadLen > 0 then readAll payloadLen.toNat else return (n, [])

/-- The `switch` of `handle_client` on the type of a message, and then the next round. -/
def dispatch (next : Server → SockProg Event Server) (sv : Server) (hdr : ProtoHeader)
    (payloadLen : UInt32) (payload : List UInt8) : SockProg Event Server := do
  let seq := ntohs hdr.seq
  if hdr.msgType = msgHello then
    sendMessage msgAck seq none 0
    next sv
  else if hdr.msgType = msgData then
    sendMessage msgAck seq (some payload) payloadLen
    next sv
  else if hdr.msgType = msgStatus then
    let now ← sysTime
    let status := protoStatus (UInt32.ofInt (now - sv.startTime)) sv.totalConnections.toUInt32
      sv.totalMessages.toUInt32
    sendMessage msgStatus seq (some status) 12
    next sv
  else if hdr.msgType = msgBye then
    sendMessage msgAck seq none 0
    return sv
  else
    sendMessage msgError seq (some unknownType) 12
    next sv

/-- The loop of `handle_client`, after the test of `running` in each round. -/
def serveRound (next : Server → SockProg Event Server) (sv : Server) : SockProg Event Server := do
  let (n, b) ← readAll sizeofHeader
  if n ≤ 0 then return sv
  let hdr := ProtoHeader.ofImage b
  if protoValidateHeader hdr < 0 then
    sendMessage msgError 0 (some badHeader) 10
    return sv
  let payloadLen := ntohl hdr.payloadLen
  let (n, payload) ← readPayload n payloadLen
  if n ≤ 0 then return sv
  let sv := { sv with totalMessages := sv.totalMessages + 1 }
  sysMark (.received (hdr.parts payload))
  dispatch next sv hdr payloadLen payload

/-- The loop of `handle_client`, with a bound on its rounds. -/
def serveLoop : Nat → Server → SockProg Event Server
  | 0, _ => .stuck
  | fuel + 1, sv => do
    if ← sysFlag then serveRound (serveLoop fuel) sv
    else return sv

/-- `handle_client` -/
def handleClient (fuel : Nat) (sv : Server) : SockProg Event Server :=
  serveLoop fuel { sv with totalConnections := sv.totalConnections + 1 }

end MiniProtocol
