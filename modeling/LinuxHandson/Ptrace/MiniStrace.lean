import LinuxHandson.Lib.CInt

/-!
# A system call tracer

The tracing loop of `main`, over the stops of the child that `waitpid` reports. A trace is what a child
can report after its initial stop: entries and exits of system calls in turn, deliveries of signals
anywhere among them, and the end, which the tracer does not see where the child is killed while it is
stopped. What is printed is kept line by line, each text with the stop at which it was printed, which
the tracer cannot see.
-/

namespace MiniStrace

open CLib

/-- The fields of `struct user_regs_struct` that the tracer reads. -/
structure Regs where
  origRax : BitVec 64
  rax : BitVec 64
deriving DecidableEq

/-- How the tracing ends between two stops. -/
inductive End where
  | exited (code : Nat)
  | signaled (sig : Nat)
  /-- `ptrace(PTRACE_SYSCALL, ...) < 0`: the child was killed after its registers were read. -/
  | gone
deriving DecidableEq

/-- The stops of a child that is inside a system call, or not. -/
inductive Trace : Bool → Type where
  | ended {inside : Bool} (e : End) : Trace inside
  /-- The child is killed at the entry of a system call, and `ptrace(PTRACE_GETREGS, ...) < 0`. -/
  | unreadEntry : Trace false
  /-- The same at another stop: the exit of a system call, or a signal. -/
  | unread {inside : Bool} : Trace inside
  | signal {inside : Bool} (regs : Regs) (t : Trace inside) : Trace inside
  | entry (regs : Regs) (t : Trace true) : Trace false
  | exit (regs : Regs) (t : Trace false) : Trace true

/-- What a stop is: the entry or the exit of the child's `k`-th system call, or a signal. -/
inductive Stop where
  | entry (k : Nat)
  | exit (k : Nat)
  | signal
deriving DecidableEq

/-- `syscall_name` -/
def syscallName (num : Int) : Option String :=
  match num with
  | 0 => "read"
  | 1 => "write"
  | 2 => "open"
  | 3 => "close"
  | 4 => "stat"
  | 5 => "fstat"
  | 9 => "mmap"
  | 10 => "mprotect"
  | 11 => "munmap"
  | 12 => "brk"
  | 21 => "access"
  | 25 => "mremap"
  | 39 => "getpid"
  | 56 => "clone"
  | 57 => "fork"
  | 59 => "execve"
  | 60 => "exit"
  | 63 => "uname"
  | 72 => "fcntl"
  | 78 => "getdents"
  | 79 => "getcwd"
  | 89 => "readlink"
  | 96 => "gettimeofday"
  | 102 => "getuid"
  | 104 => "getgid"
  | 110 => "getppid"
  | 158 => "arch_prctl"
  | 218 => "set_tid_address"
  | 231 => "exit_group"
  | 257 => "openat"
  | 262 => "newfstatat"
  | 302 => "prlimit64"
  | 318 => "getrandom"
  | 332 => "statx"
  | _ => none

/-- The text for a system call: its name, or its number. -/
def callText (num : Int) : String :=
  match syscallName num with
  | some name => name
  | none => "syscall_" ++ toString num

/-- What is printed for a return value: the argument of `strerror`, or the value. -/
inductive Ret where
  | error (errno : Int)
  | value (ret : Int)
deriving DecidableEq

/-- The test of `ret`. The negation of the smallest `int` overflows. -/
def retOf (ret : Int) : Option Ret :=
  if ret < 0 then (intArith (-(cInt ret))).map .error else some (.value ret)

/-- A line of the output, its return value if it has been printed. -/
structure Line where
  count : Int
  name : String
  stop : Stop
  ret : Option (Ret × Stop)
deriving DecidableEq

/-- `syscall_count`, `in_syscall`, and the lines, the last one first. -/
structure Tracer where
  syscallCount : Int
  inSyscall : Bool
  lines : List Line
deriving DecidableEq

/-- Before the loop. -/
def Tracer.start : Tracer := ⟨0, false, []⟩

/-- The loop body after a stop with these registers. -/
def Tracer.stopped (s : Tracer) (regs : Regs) (stop : Stop) : Option Tracer :=
  if s.inSyscall = false then
    (intArith (s.syscallCount + 1)).map fun count =>
      ⟨count, true, ⟨count, callText regs.origRax.toInt, stop, none⟩ :: s.lines⟩
  else
    (retOf regs.rax.toInt).map fun ret =>
      { s with
        inSyscall := false
        lines := s.lines.modifyHead fun l => { l with ret := some (ret, stop) } }

/-- The tracing loop, for a child that has made `calls` system calls so far. -/
def traceLoop : {inside : Bool} → Trace inside → Nat → Tracer → Option Tracer
  | _, .ended _, _, s => some s
  | _, .unreadEntry, _, s => some s
  | _, .unread, _, s => some s
  | _, .signal regs t, calls, s => (s.stopped regs .signal).bind (traceLoop t calls)
  | _, .entry regs t, calls, s =>
    (s.stopped regs (.entry (calls + 1))).bind (traceLoop t (calls + 1))
  | _, .exit regs t, calls, s => (s.stopped regs (.exit calls)).bind (traceLoop t calls)

/-- The number of system call entries. -/
def Trace.entries : {inside : Bool} → Trace inside → Nat
  | _, .ended _ => 0
  | _, .unreadEntry => 1
  | _, .unread => 0
  | _, .signal _ t => t.entries
  | _, .entry _ t => t.entries + 1
  | _, .exit _ t => t.entries

/-- No stop is taken for another one, and the registers are read at every entry; or the child is killed
at an entry right after a signal, which is counted in its place. -/
def Trace.InStep : {inside : Bool} → Trace inside → Prop
  | _, .ended _ => True
  | _, .unreadEntry => False
  | _, .unread => True
  | _, .signal _ .unreadEntry => True
  | _, .signal _ _ => False
  | _, .entry _ t => t.InStep
  | _, .exit _ t => t.InStep

/-- The return values of the system calls. -/
def Trace.returns : {inside : Bool} → Trace inside → List Int
  | _, .ended _ => []
  | _, .unreadEntry => []
  | _, .unread => []
  | _, .signal _ t => t.returns
  | _, .entry _ t => t.returns
  | _, .exit regs t => regs.rax.toInt :: t.returns

/-- A return value is printed on the line of its own system call. -/
def Line.Right (l : Line) : Prop :=
  ∀ ret stop, l.ret = some (ret, stop) → ∃ k, l.stop = .entry k ∧ stop = .exit k

/-- The tracer ends, `syscall_count` is the number of entries, and all lines are right. -/
def TracesRight (t : Trace false) : Prop :=
  ∃ s, traceLoop t 0 .start = some s ∧ s.syscallCount = t.entries ∧ ∀ l ∈ s.lines, l.Right

/-- A return value whose lower half, if it is negative, is not the smallest `int`. -/
def Printable (ret : Int) : Prop := ret < 0 → cInt ret ≠ -2 ^ 31

end MiniStrace
