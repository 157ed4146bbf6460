import LinuxHandson.Lib.CMemory
import LinuxHandson.Lib.Machine

/-!
# The echo of an epoll server

The loop of `main` over the data of one client, from the moment the client is accepted. The kernel
decides what each non-blocking `read` and `write` does. Beside the buffer stand the bytes read so far
and the bytes written so far, the latter with their places in what was read.
-/

namespace EpollServer

open CLib

/-- `sizeof(buf)` -/
def bufSize : Nat := 1024

/-- What `read` does: it gets bytes, it would block, or it fails otherwise. No bytes are the end of the
stream. -/
inductive ReadResult where
  | data (bytes : List UInt8)
  | wouldBlock
  | error
deriving DecidableEq

/-- What `write` does: it accepts the first `k` bytes, or it fails. -/
inductive WriteResult where
  | accepted (k : Nat)
  | error
deriving DecidableEq

/-- Where the server is with a client. -/
inductive Loc where
  /-- In `epoll_wait`. -/
  | waiting
  /-- Before `read`. -/
  | reading
  /-- Before the `write` of the first `n` bytes of the buffer. -/
  | writing (n : Nat)
  /-- The client has been closed. -/
  | closed
deriving DecidableEq

/-- A client: the buffer, what was read from it, and what was written to it with its places in what was
read. -/
structure State where
  loc : Loc
  buf : List UInt8
  received : List UInt8
  echoed : List (UInt8 × Nat)
deriving DecidableEq

/-- After `accept`. -/
def accepted : State := ⟨.waiting, List.replicate bufSize 0, [], []⟩

/-- What `epoll_wait` and the calls on the client return. -/
inductive Event where
  /-- `epoll_wait` reports the client. -/
  | ready
  | read (result : ReadResult)
  | write (result : WriteResult)
deriving DecidableEq

/-- `n = read(fd, buf, sizeof(buf))` and the tests on `n`. -/
def State.read (s : State) : ReadResult → Option State
  | .data bytes =>
    if bytes = [] then some { s with loc := .closed }
    else if bytes.length ≤ bufSize then
      some { loc := .writing bytes.length
             buf := splice s.buf 0 bytes
             received := s.received ++ bytes
             echoed := s.echoed }
    else none
  | .wouldBlock => some { s with loc := .waiting }
  | .error => some { s with loc := .closed }

/-- `write(fd, buf, n)`, whose result the server does not look at. -/
def State.write (s : State) (n : Nat) : WriteResult → Option State
  | .accepted k =>
    if k ≤ n then
      some { s with
        loc := .reading
        echoed := s.echoed ++ ((s.buf.take n).zipIdx (s.received.length - n)).take k }
    else none
  | .error => some { s with loc := .reading }

/-- One step of the server for a client. -/
def step : Machine.Step State Event Unit := fun s e =>
  match s.loc, e with
  | .waiting, .ready => some ((), { s with loc := .reading })
  | .reading, .read result => (s.read result).map fun s' => ((), s')
  | .writing n, .write result => (s.write n result).map fun s' => ((), s')
  | _, _ => none

/-- What was written is the beginning of what was read, byte for byte and place for place. -/
def Echoes (s : State) : Prop := s.echoed <+: s.received.zipIdx

/-- A `write` accepts bytes only if all bytes of the earlier chunks were accepted. -/
def CaughtUp (s : State) (e : Event) : Prop :=
  ∀ n k, s.loc = .writing n → e = .write (.accepted k) → k ≤ n → 0 < k →
    s.echoed.length + n = s.received.length

end EpollServer
