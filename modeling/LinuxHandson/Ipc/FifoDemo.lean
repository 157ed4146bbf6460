import LinuxHandson.Lib.Framing
import LinuxHandson.Lib.Machine
import LinuxHandson.Lib.Socket

/-!
# A server and a client over a named pipe

The loops of `run_server` and `run_client`, from the moment both have opened the FIFO. The pipe holds
bytes: a read takes some of those that are there, in whatever pieces they were written. Beside the
pipe stand the messages that the client has written and those that the server has reported.
-/

namespace FifoDemo

open CLib

/-- `MAX_MSG` -/
def maxMsg : Nat := 256

theorem quit_nulFree : 0 ∉ [(0x71 : UInt8), 0x75, 0x69, 0x74] := by decide

/-- `"quit"` -/
def quit : CStr := ⟨[0x71, 0x75, 0x69, 0x74], quit_nulFree⟩

/-- Where the server is: in its loop, after its `break`, or after a read that returned 0. -/
inductive Server where
  | reading
  | stopped
  | eof
deriving DecidableEq

/-- The two programs, the pipe between them, and the messages that went in and came out. -/
structure State where
  /-- The text still to be typed. -/
  stdin : List UInt8
  /-- The client has not closed its end. -/
  clientOpen : Bool
  server : Server
  pipe : List UInt8
  written : List CStr
  reported : List CStr
deriving DecidableEq

/-- Both ends of the pipe are open, and `text` is what will be typed. -/
def start (text : List UInt8) : State := ⟨text, true, .reading, [], [], []⟩

/-- One round of the client, or a read of the server that returns `n`. -/
inductive Event where
  | client
  | server (n : Nat)
deriving DecidableEq

/-- `buf[strcspn(buf, "\n")] = '\0'` after `fgets` has stored a piece of a line. -/
def message (piece : List UInt8) : CStr := (CStr.ofBuf piece).before newline

/-- `write(fd, buf, strlen(buf))` and the test for the last message. With no reader the signal for a
broken pipe ends the client, unless there is nothing to write. -/
def State.write (s : State) (msg : CStr) : State :=
  if msg.bytes ≠ [] ∧ s.server ≠ .reading then { s with clientOpen := false }
  else { s with
    pipe := s.pipe ++ msg.bytes
    written := s.written ++ [msg]
    clientOpen := decide (strcmp msg quit ≠ 0) }

/-- One round of `run_client`. -/
def State.client (s : State) : State :=
  match fgets maxMsg s.stdin with
  | (none, _) => { s with clientOpen := false }
  | (some piece, rest) => { s with stdin := rest }.write (message piece)

/-- `read(fd, buf, sizeof(buf) - 1)` can return `n`: some of the bytes that are there, or 0 once the
client has closed the empty pipe. -/
def State.CanRead (s : State) (n : Nat) : Prop :=
  s.server = .reading ∧
    if n = 0 then s.pipe = [] ∧ s.clientOpen = false else n ≤ maxMsg - 1 ∧ n ≤ s.pipe.length

instance (s : State) (n : Nat) : Decidable (s.CanRead n) := inferInstanceAs (Decidable (_ ∧ _))

/-- One round of `run_server`, whose read returns `n`. -/
def State.read (s : State) (n : Nat) : State :=
  if n = 0 then { s with server := .eof }
  else
    let buf := CStr.ofBuf (s.pipe.take n)
    { s with
      pipe := s.pipe.drop n
      reported := s.reported ++ [buf]
      server := if strcmp buf quit = 0 then .stopped else .reading }

/-- One step of the client or of the server. -/
def step : Machine.Step State Event Unit := fun s e =>
  match e with
  | .client => if s.clientOpen then some ((), s.client) else none
  | .server n => if s.CanRead n then some ((), s.read n) else none

/-- The reports are the messages in order, all of them at the end of the pipe, and the server stops
after the first report of `quit`. -/
structure Faithful (s : State) : Prop where
  inOrder : s.reported <+: s.written
  complete : s.server = .eof → s.reported = s.written
  stopped_iff : s.server = .stopped ↔ s.reported.getLast? = some quit
  first : quit ∉ s.reported.dropLast

/-- A read returns the bytes of one message, the first that has not been reported. It returns 0 only
when all have been. -/
def AtBoundary (s : State) : Event → Prop
  | .client => True
  | .server n =>
    s.CanRead n →
      (unreported s.written s.reported).head?.map strlen = if n = 0 then none else some n

end FifoDemo
