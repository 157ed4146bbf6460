import LinuxHandson.MiniProtocol.MiniClient
import LinuxHandson.Lib.Duplex

/-!
# Sessions of the mini protocol

What the protocol promises, said of streams of bytes and of lists of messages: how a stream divides
into frames, which answer each message gets, which requests the lines typed into the client are, and
what it means that a session stays in lock step.
-/

namespace MiniProtocol

open CLib

/-! ## The frames of a stream -/

/-- Why the server stops. -/
inductive Ending where
  | bye
  | badHeader
  | truncated
deriving DecidableEq

/-- How a stream divides into frames: the messages up to the end of service. -/
inductive Framing : List UInt8 → List Message → Ending → Prop where
  /-- The stream ends in a header. -/
  | shortHeader {b : List UInt8} (hb : b.length < sizeofHeader) : Framing b [] .truncated
  /-- A header that the check refuses. -/
  | badHeader {h : ProtoHeader} (hv : protoValidateHeader h < 0) (rest : List UInt8) :
      Framing (h.image ++ rest) [] .badHeader
  /-- The stream ends in a payload. -/
  | shortPayload {h : ProtoHeader} (hv : protoValidateHeader h = 0) {p : List UInt8}
      (hp : p.length < (ntohl h.payloadLen).toNat) : Framing (h.image ++ p) [] .truncated
  /-- A BYE, whatever follows it. -/
  | bye {m : Message} (hm : m.type = msgBye) (rest : List UInt8) :
      Framing (m.encode ++ rest) [m] .bye
  /-- Another message, and the frames after it. -/
  | frame {m : Message} (hm : m.type ≠ msgBye) {rest : List UInt8} {ms : List Message} {e : Ending}
      (h : Framing rest ms e) : Framing (m.encode ++ rest) (m :: ms) e

/-! ## Messages in a row -/

/-- `send_message`, once for each message. -/
def sendMessages : List Message → SockProg Event Unit
  | [] => return ()
  | m :: ms => do
    sendMessage m.type m.seq (some m.payload) m.len
    sendMessages ms

/-- `recv_message`, `n` times. -/
def recvMessages : Nat → SockProg Event (List (Option (UInt8 × UInt16 × List UInt8)))
  | 0 => return []
  | n + 1 => do
    let r ← recvMessage maxPayload
    let rs ← recvMessages n
    return (r.map fun m => m.1.parts m.2) :: rs

/-! ## The answers of the server -/

namespace Server

/-- One more connection. -/
def connect (sv : Server) : Server := { sv with totalConnections := sv.totalConnections + 1 }

/-- `n` more messages. -/
def count (n : Nat) (sv : Server) : Server :=
  { sv with totalMessages := sv.totalMessages + UInt64.ofNat n }

/-- The status at time `now`. -/
def status (sv : Server) (now : Int) : List UInt8 :=
  protoStatus (UInt32.ofInt (now - sv.startTime)) sv.totalConnections.toUInt32
    sv.totalMessages.toUInt32

theorem length_status (sv : Server) (now : Int) : (sv.status now).length = 12 := by
  simp only [status, protoStatus, List.length_append, length_leBytes]

end Server

/-- The answer to a message that has been counted. -/
def answer (sv : Server) (now : Int) (m : Message) : Message :=
  if m.type = msgHello then ⟨msgAck, m.seq, [], by decide⟩
  else if m.type = msgData then ⟨msgAck, m.seq, m.payload, m.fits⟩
  else if m.type = msgStatus then
    ⟨msgStatus, m.seq, sv.status now, by rw [sv.length_status]; decide⟩
  else if m.type = msgBye then ⟨msgAck, m.seq, [], by decide⟩
  else ⟨msgError, m.seq, unknownType, by decide⟩

/-- The answers to messages, one each, in order. Each STATUS looks at the clock once. -/
def answers (clock : Nat → Int) : Nat → Server → List Message → List Message
  | _, _, [] => []
  | t, sv, m :: ms =>
    answer (sv.count 1) (clock t) m ::
      answers clock (if m.type = msgStatus then t + 1 else t) (sv.count 1) ms

/-- What the server sends when it stops. -/
def Ending.farewell : Ending → List Message
  | .badHeader => [⟨msgError, 0, MiniProtocol.badHeader, by decide⟩]
  | _ => []

/-! ## The requests of the client -/

/-- What `fgets` gives for a text, call by call. -/
def pieces : Nat → List UInt8 → List (List UInt8)
  | 0, _ => []
  | n + 1, text =>
    match fgets sizeofLine text with
    | (none, _) => []
    | (some piece, rest) => piece :: pieces n rest

/-- The lines typed, without their newlines. A line too long for the buffer comes in pieces. -/
def typedLines (stdin : List UInt8) : List CStr := (pieces (stdin.length + 1) stdin).map lineText

/-- The requests that lines ask for, after `seq` earlier ones. -/
def commands : UInt16 → List CStr → List (UInt8 × UInt16 × List UInt8)
  | _, [] => []
  | seq, line :: lines =>
    if line.bytes = [] then commands seq lines
    else if line = cmdStatus then (msgStatus, seq + 1, []) :: commands (seq + 1) lines
    else if line = cmdQuit then [(msgBye, seq + 1, [])]
    else (msgData, seq + 1, line.bytes) :: commands (seq + 1) lines

/-- The requests of a session: a HELLO, and one for each line that is not empty. -/
def requests (pid : Nat) (stdin : List UInt8) : List (UInt8 × UInt16 × List UInt8) :=
  (msgHello, 1, hello pid) :: commands 1 (typedLines stdin)

/-! ## Lock step -/

/-- The reply to a request that is the `n`-th frame the server has received. -/
inductive Answered (n : Nat) : UInt8 × UInt16 × List UInt8 → UInt8 × UInt16 × List UInt8 → Prop where
  | hello (seq : UInt16) (p : List UInt8) : Answered n (msgHello, seq, p) (msgAck, seq, [])
  | data (seq : UInt16) (p : List UInt8) : Answered n (msgData, seq, p) (msgAck, seq, p)
  | status (seq : UInt16) (p : List UInt8) (uptimeSec connections : UInt32) :
      Answered n (msgStatus, seq, p)
        (msgStatus, seq, protoStatus uptimeSec connections (UInt32.ofNat n))
  | bye (seq : UInt16) (p : List UInt8) : Answered n (msgBye, seq, p) (msgAck, seq, [])

/-- A request and the reply that the client takes for it. -/
structure Exchange where
  request : UInt8 × UInt16 × List UInt8
  reply : UInt8 × UInt16 × List UInt8

/-- What happens in an exchange. -/
def Exchange.events (x : Exchange) : List Event :=
  [.request x.request, .received x.request, .reply (some x.reply)]

/-- Nothing yet, or the beginning of the exchange of a request. -/
def Underway (request : Option (UInt8 × UInt16 × List UInt8)) (log : List Event) : Prop :=
  log = [] ∨ ∃ m, request = some m ∧ (log = [.request m] ∨ log = [.request m, .received m])

/-- A session in lock step, of a server that had received `before` frames: complete exchanges for
the first requests, in order, and at most one that is under way. -/
def LockStep (before : Nat) (reqs : List (UInt8 × UInt16 × List UInt8)) (log : List Event) : Prop :=
  ∃ (xs : List Exchange) (tail : List Event),
    log = xs.flatMap Exchange.events ++ tail ∧ Underway reqs[xs.length]? tail ∧
    ∀ k (hk : k < xs.length), reqs[k]? = some xs[k].request ∧
      xs[k].request.2.1 = UInt16.ofNat (k + 1) ∧
      Answered (before + (k + 1)) xs[k].request xs[k].reply

/-- The connections that `main` has accepted, one after the other. -/
def serveAll : List (Conn Event) → Server → Option Server
  | [], sv => some sv
  | c :: cs, sv =>
    ((handleClient (c.bytes.length + 1) sv).run conn c).bind fun r => serveAll cs r.1

/-- The client of the process `pid` with the text `stdin` on its standard input, connected to the
server. -/
def session (pid : Nat) (stdin : List UInt8) (sv : Server) (fuel : Nat) :
    Duplex Event Unit Server where
  left := clientMain pid fuel
  right := handleClient fuel sv
  up := []
  down := []
  stdin := stdin
  log := []

end MiniProtocol
