import LinuxHandson.Lib.KTimer
import LinuxHandson.Lib.Machine

/-!
# A timer interrupt without a switch

The steps of `uio_demo_init` that follow `uio_register_device`, the calls of `uio_demo_irqcontrol`, one
at a time, and the timer. Beside the data stands whether a call has touched the timer before
`timer_setup`.
-/

namespace UioDemo

open KTimer

/-- The first word of the shared memory. -/
def magic : UInt32 := 0x44454D4F

/-- The number of 32-bit words in `MEM_SIZE` bytes. -/
def numWords : Nat := 1024

/-- The places of `uio_demo_init`. -/
inductive InitLoc where
  /-- Before `timer_setup`. -/
  | setup
  /-- Before `mod_timer`. -/
  | arm
  /-- `uio_demo_init` has returned. -/
  | done
deriving DecidableEq

/-- The places of `uio_demo_timer`. -/
inductive HandlerLoc where
  /-- The handler does not run. -/
  | idle
  /-- Before the interrupt is counted and reported. -/
  | notify
  /-- Before `mod_timer`. -/
  | rearm
  /-- Before the return. -/
  | leave
deriving DecidableEq

/-- `struct uio_demo_dev`, the places of the init function and of the handler, and the argument of the
call of `irqcontrol` that is in progress. -/
structure State where
  timer : Timer Unit
  irqCount : Nat
  mem : List UInt32
  init : InitLoc
  control : Option Int32
  handler : HandlerLoc
  early : Bool
deriving DecidableEq

/-- After `uio_register_device`, with the device in memory from `kzalloc`. -/
def registered : State where
  timer := Timer.zero
  irqCount := 0
  mem := (List.replicate numWords 0).set 0 magic
  init := .setup
  control := none
  handler := .idle
  early := false

/-- `mod_timer(&dev->timer, ...)` -/
def State.modTimer (s : State) : State :=
  { s with timer := s.timer.mod (), early := s.early || !s.timer.ready }

/-- `del_timer_sync(&dev->timer)`, which returns when the handler does not run. -/
def State.delTimerSync (s : State) : Option State :=
  if s.timer.running then none
  else some { s with timer := s.timer.del, early := s.early || !s.timer.ready }

/-- A step of `uio_demo_init`. -/
def uioDemoInit (s : State) : Option State :=
  match s.init with
  | .setup => some { s with timer := s.timer.setup, init := .arm }
  | .arm => some { s.modTimer with init := .done }
  | .done => none

/-- The timer call of `uio_demo_irqcontrol`. -/
def uioDemoIrqcontrol (s : State) : Option State :=
  match s.control with
  | none => none
  | some irqOn =>
    if irqOn ≠ 0 then some { s.modTimer with control := none }
    else s.delTimerSync.map fun s' => { s' with control := none }

/-- A step of `uio_demo_timer`. -/
def uioDemoTimer (s : State) : Option State :=
  match s.handler with
  | .idle => none
  | .notify =>
    some { s with
      irqCount := s.irqCount + 1
      mem := (s.mem.set 0 magic).set 1 (UInt32.ofNat (s.irqCount + 1))
      handler := .rearm }
  | .rearm => some { s.modTimer with handler := .leave }
  | .leave => some { s with timer := s.timer.finish, handler := .idle }

/-- A step of the init function, of a call of `irqcontrol` or of the timer. -/
inductive Event where
  | init
  /-- The core calls `irqcontrol`. -/
  | irqcontrol (irqOn : Int32)
  | irqcontrolTimer
  | expire
  | timer
deriving DecidableEq

/-- What an event does, where it can happen. -/
def next (s : State) : Event → Option State
  | .init => uioDemoInit s
  | .irqcontrol irqOn => if s.control = none then some { s with control := some irqOn } else none
  | .irqcontrolTimer => uioDemoIrqcontrol s
  | .expire =>
    if s.timer.Armed ∧ s.timer.running = false then
      some { s with timer := s.timer.expire, handler := .notify }
    else none
  | .timer => uioDemoTimer s

/-- One step of the driver. -/
def step : Machine.Step State Event Unit := fun s e => (next s e).map fun s' => ((), s')

/-- No call has touched the timer before it was set up. -/
def Sound (s : State) : Prop := s.early = false

/-- `irqcontrol` comes to its timer call after `timer_setup`. -/
def Orderly (s : State) (e : Event) : Prop :=
  e = .irqcontrolTimer → s.control ≠ none → s.init ≠ .setup

end UioDemo
