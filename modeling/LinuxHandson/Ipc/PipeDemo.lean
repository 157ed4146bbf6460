import LinuxHandson.Lib.Pipe

/-!
# A pipeline of two children

`demo_pipe_pipeline`: the parent makes a pipe and forks a child for `ls` and a child for `wc -l`. Every
system call is a step of its own, a `fork` or an `execlp` may fail, and each process goes on at any
time. What `ls` writes and how much `wc` reads at once are parameters.
-/

namespace PipeDemo.Pipeline

open Process Pipe

/-- The programs that the children execute. -/
structure Programs where
  /-- What `ls /usr/bin` writes to its standard output. -/
  out : List UInt8
  /-- How many bytes `wc` asks for at once. -/
  count : Nat
  count_pos : 0 < count

/-- The three processes. -/
inductive Proc where
  | parent
  | ls
  | wc
deriving DecidableEq

/-- The places of the parent, of the child `p1` and of the child `p2`. The parent keeps of each of the
variables `p1` and `p2` whether the `fork` has given a child. -/
inductive Place where
  | pipe
  | fork₁
  | fork₂ (p1 : Bool)
  | closeRead (p1 p2 : Bool)
  | closeWrite (p1 p2 : Bool)
  /-- Before `waitpid(p1, NULL, 0)`. -/
  | wait₁ (p1 p2 : Bool)
  /-- Before `waitpid(p2, NULL, 0)`. -/
  | wait₂ (p2 : Bool)
  | returned
  | lsCloseRead
  | lsDup
  | lsCloseWrite
  | lsExec
  /-- `ls` runs, with `rest` to be written. -/
  | ls (rest : List UInt8)
  /-- Before `_exit(1)`. -/
  | lsFailed
  | wcCloseWrite
  | wcDup
  | wcCloseRead
  | wcExec
  /-- `wc` runs, and has counted `n` lines. -/
  | wc (n : Nat)
  | wcPrint (n : Nat)
  | wcExit
  /-- Before `_exit(1)`. -/
  | wcFailed
deriving DecidableEq

/-- A place, and the array `pipefd`. -/
structure Loc where
  place : Place
  pipefd : Nat × Nat
deriving DecidableEq

/-- `STDIN_FILENO` -/
def stdinFileno : Nat := 0

/-- `STDOUT_FILENO` -/
def stdoutFileno : Nat := 1

/-- The number of newlines. -/
def lines (bytes : List UInt8) : Nat := bytes.count 0x0A

/-- The argument of `waitpid` for the child `c`, -1 if there is no child. -/
def pidOf (c : Proc) (forked : Bool) : Option Proc := if forked then some c else none

/-- The code of all three processes. -/
def code (P : Programs) : Proc → Loc → Act Proc (Obj Unit) Loc (World Unit Nat)
  | _, ⟨place, pipefd⟩ =>
    let go (p : Place) : Loc := ⟨p, pipefd⟩
    match place with
    | .pipe => .sys (create () fun fds => ⟨.fork₁, fds⟩)
    | .fork₁ => .fork .ls (go .lsCloseRead) fun p1 => go (.fork₂ p1)
    | .fork₂ p1 => .fork .wc (go .wcCloseWrite) fun p2 => go (.closeRead p1 p2)
    | .closeRead p1 p2 => .sys (close pipefd.1 (go (.closeWrite p1 p2)))
    | .closeWrite p1 p2 => .sys (close pipefd.2 (go (.wait₁ p1 p2)))
    | .wait₁ p1 p2 => .wait (pidOf .ls p1) (go (.wait₂ p2))
    | .wait₂ p2 => .wait (pidOf .wc p2) (go .returned)
    | .returned => .sys fun _ _ _ _ => none
    | .lsCloseRead => .sys (close pipefd.1 (go .lsDup))
    | .lsDup => .sys (dup2 pipefd.2 stdoutFileno (go .lsCloseWrite))
    | .lsCloseWrite => .sys (close pipefd.2 (go .lsExec))
    | .lsExec => .sys (either (go (.ls P.out)) (go .lsFailed))
    | .ls [] => .exit 0
    | .ls (b :: bs) => .sys (writeSome stdoutFileno (b :: bs) fun rest => go (.ls rest))
    | .lsFailed => .exit 1
    | .wcCloseWrite => .sys (close pipefd.2 (go .wcDup))
    | .wcDup => .sys (dup2 pipefd.1 stdinFileno (go .wcCloseRead))
    | .wcCloseRead => .sys (close pipefd.1 (go .wcExec))
    | .wcExec => .sys (either (go (.wc 0)) (go .wcFailed))
    | .wc n =>
      .sys (read stdinFileno P.count fun bytes =>
        go (if bytes = [] then .wcPrint n else .wc (n + lines bytes)))
    | .wcPrint n => .sys (printf n (go .wcExit))
    | .wcExit => .exit 0
    | .wcFailed => .exit 1

/-- The processes, with the pipe and the lines that were printed. -/
abbrev SysState := State Proc (Obj Unit) Loc (World Unit Nat)

/-- `SIGCHLD` has no handler. -/
def step (P : Programs) : Machine.Step SysState (Event Proc) Unit :=
  Process.step (code P) fun _ _ => none

/-- The parent calls `demo_pipe_pipeline`, with its standard files open. -/
def start : SysState :=
  .start .parent ⟨.pipe, (0, 0)⟩ (List.replicate 3 (some .terminal)) .start

end PipeDemo.Pipeline
