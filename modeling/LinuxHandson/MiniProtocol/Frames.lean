import LinuxHandson.Lib.PartialWrites
import LinuxHandson.MiniProtocol.Protocol

/-!
# Messages sent one after the other

`send_message` called again and again on one connection. It looks at the result of neither of its
two `write_all`s, and returns nothing to its caller.
-/

namespace MiniProtocol

open CLib PartialWrites

variable {ε : Type}

/-- The arguments of `send_message`: the payload has `payload_len` bytes, none where it is `NULL`. -/
structure Send where
  type : UInt8
  seq : UInt16
  payload : Option (List UInt8)
  payloadLen : UInt32
  size : (payload.getD []).length = payloadLen.toNat

/-- The header as bytes. -/
def Send.header (s : Send) : List UInt8 := (protoFillHeader s.type s.seq s.payloadLen).image

/-- The complete frame. -/
def Send.frame (s : Send) : List UInt8 := s.header ++ s.payload.getD []

/-- What goes out by a `write_all` of its own. -/
def Send.buffers (s : Send) : List (List UInt8) :=
  s.header :: if s.payloadLen = 0 then [] else [s.payload.getD []]

/-- The calls of `send_message` on a connection. -/
def sendAll : List Send → SockProg ε Unit
  | [] => return ()
  | s :: sends => do
    sendMessage s.type s.seq s.payload s.payloadLen
    sendAll sends

/-- The buffers of all the messages. -/
def buffers (sends : List Send) : List (List UInt8) := sends.flatMap Send.buffers

/-- How much of each buffer is on the wire after writes with the results `rs`. -/
def sent (sends : List Send) (rs : List (Option Nat)) : List Nat :=
  counts ((buffers sends).map List.length) rs

/-- The wire carries a first part of the frames: of no buffer a byte is out before the buffers in front
of it are out, a header in front of its payload and a frame in front of the next one. -/
def Intact (sends : List Send) (rs : List (Option Nat)) (wire : List UInt8) : Prop :=
  wire <+: (sends.map Send.frame).flatten ∧ InOrder ((buffers sends).map List.length) (sent sends rs)

end MiniProtocol
