import LinuxHandson.Lib.Reaper

/-!
# The echo server that forks

`main` of `tcp_server_concurrent.c` and the children that it forks, one for each connection, with
`sigchld_handler`. Every system call is a step of its own. What a client sends is a parameter; how many
bytes a `read` or a `write` moves, and when one fails, is up to the schedule, and so is what `SIGINT`
makes of `running`.
-/

namespace ForkServer

open Process

/-- What a descriptor stands for. -/
inductive Obj where
  | terminal
  | server
  /-- The connection that was accepted as number `n`. -/
  | client (n : Nat)
deriving DecidableEq

/-- What has come from a client, and what has been written to it. -/
structure Conn where
  received : List UInt8
  echoed : List UInt8

/-- The places of the code of the parent and of a child. -/
inductive Place where
  /-- Before `socket`, `bind` and `listen`. -/
  | socket
  /-- At the head of the loop, before `accept`. -/
  | accept
  | fork (clientFd : Nat)
  /-- Before the `close(client_fd)` of the parent, with a child or without. -/
  | closeClient (clientFd : Nat)
  /-- After the loop. -/
  | closeServer
  | exit
  | childCloseServer (clientFd : Nat)
  /-- Before the `read` of `handle_client`. -/
  | reading (fd : Nat)
  /-- Before a `write` of `handle_client`, with `rest` to be written. -/
  | writing (fd : Nat) (rest : List UInt8)
  | childCloseClient (clientFd : Nat)
  | childExit
deriving DecidableEq

/-- A place, `server_fd`, and how many connections have been accepted. -/
structure Loc where
  place : Place
  serverFd : Nat
  accepted : Nat
deriving DecidableEq

/-- `sizeof(buf)` -/
def bufSize : Nat := 1024

/-- A system call. -/
abbrev Call := (Obj → Bool) → Nat → Fds Obj → (Nat → Conn) →
  Option (Option Loc × Fds Obj × (Nat → Conn))

/-- The next `k` bytes of a client that has sent some. -/
def nextBytes (input : Nat → Nat → UInt8) (n : Nat) (c : Conn) (k : Nat) : List UInt8 :=
  (List.range k).map fun j => input n (c.received.length + j)

/-- `accept`. `running` is 0 for choice 0, and `accept` fails for choice 1. -/
def accept (l : Loc) : Call := fun _ choice fds s =>
  match choice with
  | 0 => some (some { l with place := .closeServer }, fds, s)
  | 1 => some (some l, fds, s)
  | _ =>
    let (fd, fds') := fds.add (.client l.accepted)
    some (some { l with place := .fork fd, accepted := l.accepted + 1 }, fds', s)

/-- `n = read(fd, buf, sizeof(buf))`, with `n <= 0` for choice 0. -/
def read (input : Nat → Nat → UInt8) (fd : Nat) (l : Loc) : Call := fun _ choice fds s =>
  match fds.get fd with
  | some (.client n) =>
    if choice = 0 then some (some { l with place := .childCloseClient fd }, fds, s)
    else if choice ≤ bufSize then
      let bytes := nextBytes input n (s n) choice
      some (some { l with place := .writing fd bytes }, fds,
        Function.update s n { s n with received := (s n).received ++ bytes })
    else none
  | _ => none

/-- `w = write(fd, buf + sent, n - sent)`, with `w <= 0` for choice 0. For a choice beyond what is
left, the connection is broken, and `SIGPIPE` ends the child. -/
def write (fd : Nat) (rest : List UInt8) (l : Loc) : Call := fun _ choice fds s =>
  match fds.get fd with
  | some (.client n) =>
    if choice = 0 then some (some { l with place := .childCloseClient fd }, fds, s)
    else if choice ≤ rest.length then
      let next : Place := if rest.length = choice then .reading fd else .writing fd (rest.drop choice)
      some (some { l with place := next }, fds,
        Function.update s n { s n with echoed := (s n).echoed ++ rest.take choice })
    else some (none, fds, s)
  | _ => none

/-- `close(fd)` -/
def close (fd : Nat) (next : Loc) : Call := fun _ _ fds s => some (some next, fds.close fd, s)

/-- The code of the parent, process 0, and of the child for connection `n`, process `n + 1`. -/
def main (input : Nat → Nat → UInt8) : Nat → Loc → Act Nat Obj Loc (Nat → Conn)
  | _, l =>
    let go (p : Place) : Loc := { l with place := p }
    match l.place with
    | .socket => .sys fun _ _ fds s =>
      let (fd, fds') := fds.add .server
      some (some { go .accept with serverFd := fd }, fds', s)
    | .accept => .sys (accept l)
    | .fork fd => .fork l.accepted (go (.childCloseServer fd)) fun _ => go (.closeClient fd)
    | .closeClient fd => .sys (close fd (go .accept))
    | .closeServer => .sys (close l.serverFd (go .exit))
    | .exit => .exit 0
    | .childCloseServer fd => .sys (close l.serverFd (go (.reading fd)))
    | .reading fd => .sys (read input fd l)
    | .writing fd rest => .sys (write fd rest l)
    | .childCloseClient fd => .sys (close fd (go .childExit))
    | .childExit => .exit 0

/-- The processes, with the connection of each client. -/
abbrev SysState := State Nat Obj (Reaper.Loc Loc) (Nat → Conn)

/-- One step of the server, with `sigchld_handler` as the handler of `SIGCHLD`. -/
def step (input : Nat → Nat → UInt8) : Machine.Step SysState (Event Nat) Unit :=
  Process.step (Reaper.code (main input)) Reaper.handler

/-- `main` is called with the standard files open. -/
def start : SysState :=
  .start 0 ⟨⟨.socket, 0, 0⟩, none⟩ (List.replicate 3 (some .terminal)) fun _ => ⟨[], []⟩

end ForkServer
