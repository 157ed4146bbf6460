import LinuxHandson.Lib.KTimer
import LinuxHandson.Lib.Machine

/-!
# A simulated device with a timer interrupt

The steps of `uio_sim_init` that follow `uio_register_device`, the calls of `uio_sim_irqcontrol`, one at
a time, and the timer. Beside the data stands whether a call has touched the timer before `timer_setup`.
-/

namespace UioSim

open KTimer

/-- The number of 32-bit registers in `MEM_SIZE` bytes. -/
def numRegs : Nat := 1024

/-- `REG_STATUS / 4` -/
def regStatus : Nat := 1

/-- The places of `uio_sim_init`. -/
inductive InitLoc where
  /-- Before `timer_setup`. -/
  | setup
  /-- Before `enabled = true`. -/
  | enable
  /-- Before `mod_timer`. -/
  | arm
  /-- `uio_sim_init` has returned. -/
  | done
deriving DecidableEq

/-- The places of `uio_sim_irqcontrol`. -/
inductive ControlLoc where
  /-- No call is in progress. -/
  | none
  /-- Before `mod_timer`. -/
  | on
  /-- Before `del_timer_sync`, or in it. -/
  | off
deriving DecidableEq

/-- The places of `uio_sim_timer`. -/
inductive HandlerLoc where
  /-- The handler does not run. -/
  | idle
  /-- At the first test of `enabled`. -/
  | test
  /-- Before the interrupt is counted and reported. -/
  | notify
  /-- At the second test of `enabled`. -/
  | retest
  /-- Before `mod_timer`. -/
  | rearm
  /-- Before the return. -/
  | leave
deriving DecidableEq

/-- `struct uio_sim_dev` and the places of the three functions. -/
structure State where
  timer : Timer Unit
  enabled : Bool
  irqCount : Nat
  regs : List UInt32
  init : InitLoc
  control : ControlLoc
  handler : HandlerLoc
  early : Bool
deriving DecidableEq

/-- After `uio_register_device`, with the device in memory from `kzalloc`. -/
def registered : State where
  timer := Timer.zero
  enabled := false
  irqCount := 0
  regs := (List.replicate numRegs 0).set 0 0x53494D44
  init := .setup
  control := .none
  handler := .idle
  early := false

/-- `mod_timer(&dev->timer, ...)` -/
def State.modTimer (s : State) : State :=
  { s with timer := s.timer.mod (), early := s.early || !s.timer.ready }

/-- `del_timer_sync(&dev->timer)`, which returns when the handler does not run. -/
def State.delTimerSync (s : State) : Option State :=
  if s.timer.running then none
  else some { s with timer := s.timer.del, early := s.early || !s.timer.ready }

/-- A step of `uio_sim_init`. -/
def uioSimInit (s : State) : Option State :=
  match s.init with
  | .setup => some { s with timer := s.timer.setup, init := .enable }
  | .enable => some { s with enabled := true, init := .arm }
  | .arm => some { s.modTimer with init := .done }
  | .done => none

/-- The call `uio_sim_irqcontrol(info, irq_on)` up to its timer call. -/
def uioSimIrqcontrol (irqOn : Int32) (s : State) : Option State :=
  if s.control = .none then
    some { s with enabled := irqOn ≠ 0, control := if irqOn ≠ 0 then .on else .off }
  else none

/-- The timer call of `uio_sim_irqcontrol`. -/
def irqcontrolTimer (s : State) : Option State :=
  match s.control with
  | .none => none
  | .on => some { s.modTimer with control := .none }
  | .off => s.delTimerSync.map fun s' => { s' with control := .none }

/-- The timer expires. -/
def expire (s : State) : Option State :=
  if s.timer.Armed ∧ s.timer.running = false then
    some { s with timer := s.timer.expire, handler := .test }
  else none

/-- A step of `uio_sim_timer`. -/
def uioSimTimer (s : State) : Option State :=
  match s.handler with
  | .idle => none
  | .test => some { s with handler := if s.enabled then .notify else .leave }
  | .notify =>
    some { s with
      irqCount := s.irqCount + 1
      regs := s.regs.set regStatus 1
      handler := .retest }
  | .retest => some { s with handler := if s.enabled then .rearm else .leave }
  | .rearm => some { s.modTimer with handler := .leave }
  | .leave => some { s with timer := s.timer.finish, handler := .idle }

/-- A step of the init function, of a call of `irqcontrol` or of the timer. -/
inductive Event where
  | init
  | irqcontrol (irqOn : Int32)
  | irqcontrolTimer
  | expire
  | timer
deriving DecidableEq

/-- What an event does, where it can happen. -/
def next (s : State) : Event → Option State
  | .init => uioSimInit s
  | .irqcontrol irqOn => uioSimIrqcontrol irqOn s
  | .irqcontrolTimer => irqcontrolTimer s
  | .expire => expire s
  | .timer => uioSimTimer s

/-- One step of the driver. -/
def step : Machine.Step State Event Unit := fun s e => (next s e).map fun s' => ((), s')

/-- No call has touched the timer before it was set up; and while neither the init function nor a call
of `irqcontrol` is in progress, the timer is armed or its handler running exactly if `enabled` is
true. -/
structure Sound (s : State) : Prop where
  setUp : s.early = false
  armed : s.init = .done → s.control = .none →
    ((s.timer.Armed ∨ s.timer.running = true) ↔ s.enabled = true)

/-- The init function and `irqcontrol` do not get in each other's way. -/
structure Orderly (s : State) (e : Event) : Prop where
  /-- `irqcontrol` comes to its timer call after `timer_setup`. -/
  setUp : e = .irqcontrolTimer → s.control ≠ .none → s.init ≠ .setup
  /-- When `irqcontrol` deletes the timer after the last step of the init function, the init function has
  not set `enabled` in between. -/
  off : e = .irqcontrolTimer → s.control = .off → s.timer.running = false → s.init = .done →
    s.enabled = false
  /-- The init function does not arm the timer after a call of `irqcontrol` has switched it off. -/
  arm : e = .init → s.init = .arm → s.control = .none → s.enabled = true

end UioSim
