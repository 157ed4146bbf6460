import LinuxHandson.MiniProtocol.MiniServer
import LinuxHandson.Lib.CString

/-!
# The client of the mini protocol (`mini_client.c`)

`recv_message`, and `main` from the moment it is connected. What goes to standard output is left
out.
-/

namespace MiniProtocol

open CLib

/-- `recv_message`: the header and the payload stored, or the return value -1. -/
def recvMessage (maxPayload : UInt32) : SockProg Event (Option (ProtoHeader × List UInt8)) := do
  let (n, b) ← readAll sizeofHeader
  if n ≤ 0 then return none
  let hdr := ProtoHeader.ofImage b
  if protoValidateHeader hdr < 0 then return none
  let plen := ntohl hdr.payloadLen
  if plen > 0 then
    if plen > maxPayload then return none
    let (n, payload) ← readAll plen.toNat
    if n ≤ 0 then return none
    return some (hdr, payload)
  else return some (hdr, [])

/-- A request and the reply that `recv_message` gives for it. -/
def exchange (type : UInt8) (seq : UInt16) (payload : Option (List UInt8)) (payloadLen : UInt32) :
    SockProg Event Unit := do
  sysMark (.request (type, seq, (payload.getD []).take payloadLen.toNat))
  sendMessage type seq payload payloadLen
  let resp ← recvMessage maxPayload
  sysMark (.reply (resp.map fun r => r.1.parts r.2))

/-- `"test_client_"` -/
def clientPrefix : List UInt8 :=
  [0x74, 0x65, 0x73, 0x74, 0x5F, 0x63, 0x6C, 0x69, 0x65, 0x6E, 0x74, 0x5F]

/-- The HELLO payload of the process `pid`: the name, cut to 31 bytes, and zeros up to 32. -/
def hello (pid : Nat) : List UInt8 :=
  let name := (clientPrefix ++ CStr.ascii (Nat.toDigits 10 pid)).take 31
  name ++ List.replicate (32 - name.length) 0

/-- The text of a line that `fgets` has stored: up to the first NUL, without its newline. -/
def lineText (piece : List UInt8) : CStr :=
  let line := CStr.ofBuf piece
  if 0 < strlen line ∧ line.charAt (strlen line - 1) = newline then line.cut (strlen line - 1)
  else line

/-- `"/status"` -/
def cmdStatus : CStr := ⟨[0x2F, 0x73, 0x74, 0x61, 0x74, 0x75, 0x73], by decide⟩

/-- `"/quit"` -/
def cmdQuit : CStr := ⟨[0x2F, 0x71, 0x75, 0x69, 0x74], by decide⟩

/-- `sizeof(line)` -/
def sizeofLine : Nat := 1024

/-- The loop of `main`, with a bound on its rounds. -/
def clientLoop : Nat → UInt16 → SockProg Event Unit
  | 0, _ => .stuck
  | fuel + 1, seq => do
    match ← sysFgets sizeofLine with
    | none => return ()
    | some piece =>
      let line := lineText piece
      if strlen line = 0 then clientLoop fuel seq
      else if strcmp line cmdStatus = 0 then
        exchange msgStatus (seq + 1) none 0
        clientLoop fuel (seq + 1)
      else if strcmp line cmdQuit = 0 then exchange msgBye (seq + 1) none 0
      else
        exchange msgData (seq + 1) (some line.bytes) (UInt32.ofNat (strlen line))
        clientLoop fuel (seq + 1)

/-- `main` of the process `pid`, connected to the server. -/
def clientMain (pid fuel : Nat) : SockProg Event Unit := do
  exchange msgHello 1 (some (hello pid)) 32
  clientLoop fuel 1

end MiniProtocol
