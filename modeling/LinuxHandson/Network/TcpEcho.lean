import LinuxHandson.Lib.Framing
import LinuxHandson.Lib.Machine
import LinuxHandson.Lib.Socket

/-!
# A client and an echo server

The send and receive loop of `tcp_client.c` and the echo loop of `tcp_server.c`, from the moment they
are connected. Each read and each write is a step of its own and carries any number of the bytes that
are there, so the two streams are cut and delayed in every way. Calls do not fail.
-/

namespace TcpEcho

open CLib

/-- `sizeof(line)` and `sizeof(buf)`, in both programs. -/
def bufSize : Nat := 1024

/-- Where the client is. -/
inductive Client where
  /-- Before `fgets`. -/
  | typing
  /-- In the write loop, with the bytes still to be written. -/
  | sending (rest : List UInt8)
  /-- Before `read`. -/
  | receiving
  | closed
deriving DecidableEq

/-- Where the server is with the connection. -/
inductive Server where
  /-- Before `read`. -/
  | reading
  /-- In the write loop, with the bytes still to be written. -/
  | echoing (rest : List UInt8)
  | closed
deriving DecidableEq

/-- Both programs, the bytes on their way to the server and back, and the text still to be typed.
Beside them stand the lines sent and the texts printed. -/
structure State where
  stdin : List UInt8
  client : Client
  server : Server
  up : List UInt8
  down : List UInt8
  sent : List CStr
  printed : List CStr

/-- The programs are connected, and `text` is what will be typed. -/
def start (text : List UInt8) : State := ⟨text, .typing, .reading, [], [], [], []⟩

/-- A call of the client or of the server, and what it returns. -/
inductive Event where
  /-- `fgets` returns. -/
  | typed
  /-- A write of the client takes `k` bytes. -/
  | clientWrite (k : Nat)
  /-- The read of the client returns `n`. -/
  | clientRead (n : Nat)
  /-- A read of the server returns `n`. -/
  | serverRead (n : Nat)
  /-- A write of the server takes `k` bytes. -/
  | serverWrite (k : Nat)

/-- `while (sent < len)` of the client. -/
def Client.send (rest : List UInt8) : Client := if rest = [] then .receiving else .sending rest

/-- `while (sent < n)` of the server. -/
def Server.echo (rest : List UInt8) : Server := if rest = [] then .reading else .echoing rest

/-- `fgets(line, sizeof(line), stdin)`, and the length of the line. -/
def State.typed (s : State) : State :=
  match fgets bufSize s.stdin with
  | (none, _) => { s with client := .closed }
  | (some piece, stdin) =>
    let line := CStr.ofBuf piece
    { s with stdin := stdin, client := .send line.bytes, sent := s.sent ++ [line] }

/-- The read of the client can return `n`: bytes that are there, or 0 after the server has closed. -/
def State.CanReceive (s : State) (n : Nat) : Prop :=
  s.client = .receiving ∧
    if n = 0 then s.down = [] ∧ s.server = .closed else n ≤ bufSize - 1 ∧ n ≤ s.down.length

instance (s : State) (n : Nat) : Decidable (s.CanReceive n) := inferInstanceAs (Decidable (_ ∧ _))

/-- `read(fd, buf, sizeof(buf) - 1)` returns `n`, and the text is printed. -/
def State.receive (s : State) (n : Nat) : State :=
  if n = 0 then { s with client := .closed }
  else
    { s with
      client := .typing
      down := s.down.drop n
      printed := s.printed ++ [CStr.ofBuf (s.down.take n)] }

/-- The read of the server can return `n`: bytes that are there, or 0 after the client has closed. -/
def State.CanServe (s : State) (n : Nat) : Prop :=
  s.server = .reading ∧
    if n = 0 then s.up = [] ∧ s.client = .closed else n ≤ bufSize ∧ n ≤ s.up.length

instance (s : State) (n : Nat) : Decidable (s.CanServe n) := inferInstanceAs (Decidable (_ ∧ _))

/-- `read(client_fd, buf, sizeof(buf))` returns `n`. -/
def State.serve (s : State) (n : Nat) : State :=
  if n = 0 then { s with server := .closed }
  else { s with server := .echo (s.up.take n), up := s.up.drop n }

/-- One step of the two programs. -/
def step : Machine.Step State Event Unit := fun s e =>
  match e with
  | .typed => if s.client = .typing then some ((), s.typed) else none
  | .clientWrite k =>
    match s.client with
    | .sending rest =>
      if 0 < k ∧ k ≤ rest.length then
        some ((), { s with client := .send (rest.drop k), up := s.up ++ rest.take k })
      else none
    | _ => none
  | .clientRead n => if s.CanReceive n then some ((), s.receive n) else none
  | .serverRead n => if s.CanServe n then some ((), s.serve n) else none
  | .serverWrite k =>
    match s.server with
    | .echoing rest =>
      if 0 < k ∧ k ≤ rest.length then
        some ((), { s with server := .echo (rest.drop k), down := s.down ++ rest.take k })
      else none
    | _ => none

/-- The text printed after a line is this line. -/
def Echoes (s : State) : Prop := s.printed <+: s.sent

instance : DecidablePred Echoes := fun s => inferInstanceAs (Decidable (s.printed <+: s.sent))

/-- A read of the client returns as many bytes as the line has that was sent before it. -/
def WholeLine (s : State) (e : Event) : Prop :=
  ∀ n, e = .clientRead n → s.CanReceive n → 0 < n → s.sent.getLast?.map strlen = some n

end TcpEcho
