import LinuxHandson.Lib.Filled
import LinuxHandson.Lib.Loop
import LinuxHandson.Lib.Machine
import Mathlib.Data.Finset.Basic

/-!
# The clients of a select server

The loop of `main`, one iteration at a time: the set for `select`, `accept`, and the pass over the
clients. The kernel decides what `select`, `accept` and the reads of an iteration return. It keeps
the descriptors of the clients that are accepted and not yet closed.
-/

namespace SelectServer

open CLib

/-- `MAX_CLIENTS` -/
def maxClients : Nat := 64

/-- `FD_SETSIZE` -/
def fdSetsize : Nat := 1024

/-- `sizeof(buf)` -/
def bufSize : Nat := 1024

/-- `FD_SET(fd, set)`. A descriptor that the set has no bit for is undefined behaviour. -/
def fdSet (fd : Nat) (set : Finset Nat) : Option (Finset Nat) :=
  if fd < fdSetsize then some (insert fd set) else none

/-- `client_fds` with `num_clients`, and the client descriptors that are open in the kernel. -/
structure State where
  clients : Filled Nat
  opened : Finset Nat
deriving DecidableEq

/-- Before the first iteration. -/
def start : State := ⟨⟨List.replicate maxClients 0, 0⟩, ∅⟩

/-- What `select` returns: an error, 0, or the descriptors that it leaves in the set. -/
inductive SelectResult where
  | failed
  | timeout
  | ready (set : Finset Nat)

/-- The set that `select` leaves, if it reports descriptors. -/
def SelectResult.set? : SelectResult → Option (Finset Nat)
  | .ready set => some set
  | _ => none

/-- What the kernel does in one iteration. -/
structure Kernel where
  select : SelectResult
  /-- The new descriptor, `none` when `accept` fails. -/
  accept : Option Nat
  /-- What the `k`-th read finds: the bytes that wait, none at the end of the stream, or an error. -/
  read : Nat → Option (List UInt8)

/-- The system calls on descriptors. -/
inductive Call where
  | accept
  | read (fd : Nat)
  | write (fd : Nat) (bytes : List UInt8)
  | close (fd : Nat)
deriving DecidableEq

/-- `readfds` and `maxfd` with one more client. -/
def watchClient (w : Finset Nat × Nat) (fd : Nat) : Option (Finset Nat × Nat) :=
  (fdSet fd w.1).map fun set => (set, if w.2 < fd then fd else w.2)

/-- `readfds` and `maxfd` before `select`. -/
def watch (serverFd : Nat) (s : State) : Option (Finset Nat × Nat) :=
  (fdSet serverFd ∅).bind fun set => s.clients.items.foldlM watchClient (set, serverFd)

/-- New connection? -/
def acceptClient (serverFd : Nat) (ready : Finset Nat) (k : Kernel) (s : State) :
    Option (List Call × State) :=
  if serverFd ∈ ready then
    match k.accept with
    | none => some ([.accept], s)
    | some fd =>
      let opened := insert fd s.opened
      if s.clients.count < maxClients then
        (s.clients.push fd).map fun clients => ([.accept], ⟨clients, opened⟩)
      else some ([.accept, .close fd], ⟨s.clients, opened.erase fd⟩)
  else some ([], s)

/-- The pass over the clients: the index, the reads and all calls made so far in the iteration. -/
structure Pass where
  i : Nat
  reads : Nat
  calls : List Call
  state : State

/-- One round of the pass. A client whose read finds no bytes is closed, and the last client moves to
its index, at which the next round looks again. -/
def passRound (ready : Finset Nat) (k : Kernel) (p : Pass) : Round Pass (List Call × State) :=
  if p.i < p.state.clients.count then
    match p.state.clients.slots[p.i]? with
    | none => .undefined
    | some fd =>
      if fd ∈ ready then
        let bytes := ((k.read p.reads).getD []).take bufSize
        if bytes = [] then
          match p.state.clients.moveLast p.i with
          | none => .undefined
          | some clients =>
            .again ⟨p.i, p.reads + 1, p.calls ++ [.read fd, .close fd],
              ⟨clients, p.state.opened.erase fd⟩⟩
        else .again ⟨p.i + 1, p.reads + 1, p.calls ++ [.read fd, .write fd bytes], p.state⟩
      else .again { p with i := p.i + 1 }
  else .done (p.calls, p.state)

/-- Data from existing clients? -/
def pass (ready : Finset Nat) (k : Kernel) (calls : List Call) (s : State) :
    Option (List Call × State) :=
  match rounds (passRound ready k) (s.clients.count + 1) ⟨0, 0, calls, s⟩ with
  | .done r => some r
  | _ => none

/-- One iteration of the loop, with the calls that it makes. -/
def step (serverFd : Nat) : Machine.Step State Kernel (List Call) := fun s k =>
  (watch serverFd s).bind fun _ =>
    match k.select with
    | .failed => some ([], s)
    | .timeout => some ([], s)
    | .ready ready => (acceptClient serverFd ready k s).bind fun r => pass ready k r.1 r.2

/-- `accept` returns a descriptor below `FD_SETSIZE` that is not open, and `select` reports only
descriptors of the set. -/
def Promised (serverFd : Nat) (s : State) (k : Kernel) : Prop :=
  (∀ fd ∈ k.accept, fd ∉ s.opened ∧ fd ≠ serverFd ∧ fd < fdSetsize) ∧
    ∀ ready ∈ k.select.set?, ∀ w ∈ watch serverFd s, ready ⊆ w.1

instance (serverFd : Nat) (s : State) (k : Kernel) : Decidable (Promised serverFd s k) :=
  inferInstanceAs (Decidable (_ ∧ _))

/-- `client_fds[0..num_clients)` lists the open clients, each once. -/
structure Listed (s : State) : Prop where
  num_le : s.clients.count ≤ maxClients
  nodup : s.clients.items.Nodup
  mem_iff : ∀ fd, fd ∈ s.clients.items ↔ fd ∈ s.opened

end SelectServer
