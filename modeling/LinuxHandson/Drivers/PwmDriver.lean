import LinuxHandson.Lib.CInt
import LinuxHandson.Lib.CString
import LinuxHandson.Lib.Errno
import LinuxHandson.Lib.KTimer
import LinuxHandson.Lib.Machine

/-!
# A duty cycle set by hand and by a timer

`duty_store`, `breathe_store` and `breathe_timer_fn` on the data that `pwm_demo_probe` has set up.
`kstrtoint` of the kernel is a parameter: it gives a value or an error. Beside the data stand the
duty values that the driver has passed to `pwm_config`.
-/

namespace PwmDriver

open CLib KTimer

/-- `PERIOD_NS` -/
def periodNs : Nat := 1000000

/-- `struct pwm_demo_priv`; when the timer expires does not matter here. -/
structure PwmDemoPriv where
  breatheTimer : Timer Unit
  dutyPercent : Int
  direction : Int
  breathing : Bool
deriving DecidableEq

/-- The data of the driver, and the values passed to `pwm_config` so far. -/
structure State where
  priv : PwmDemoPriv
  configured : List Nat
deriving DecidableEq

/-- `pwm_config(priv->pwm, duty, PERIOD_NS)` -/
def State.pwmConfig (s : State) (duty : Nat) : State :=
  { s with configured := s.configured ++ [duty] }

/-- `(unsigned long)PERIOD_NS * percent / 100` -/
def dutyNs (percent : Int) : Nat := sizeT (periodNs * percent) / 100

/-- The state after a successful `pwm_demo_probe`. -/
def probed : State :=
  State.pwmConfig ⟨⟨Timer.zero.setup, 0, 0, false⟩, []⟩ 0

/-- `kstrtoint(buf, 10, &val)`: the value, or nothing for an error. -/
abbrev Kstrtoint := CStr → Option Int32

/-- `duty_store` -/
def dutyStore (kstrtoint : Kstrtoint) (s : State) (buf : CStr) (count : Nat) : Int × State :=
  match kstrtoint buf with
  | none => (-EINVAL, s)
  | some val =>
    if val.toInt < 0 ∨ 100 < val.toInt then (-EINVAL, s)
    else (count, State.pwmConfig { s with priv := { s.priv with dutyPercent := val.toInt } }
      (dutyNs val.toInt))

/-- `breathe_store`, which starts or stops the timer. -/
def breatheStore (kstrtoint : Kstrtoint) (s : State) (buf : CStr) (count : Nat) : Int × State :=
  match kstrtoint buf with
  | none => (-EINVAL, s)
  | some val =>
    if val.toInt ≠ 0 ∧ s.priv.breathing = false then
      (count, { s with priv := ⟨s.priv.breatheTimer.mod (), 0, 1, true⟩ })
    else if val.toInt = 0 ∧ s.priv.breathing = true then
      (count, { s with priv :=
        { s.priv with breathing := false, breatheTimer := s.priv.breatheTimer.del } })
    else (count, s)

/-- The direction in which `breathe_timer_fn` goes on from the new duty. -/
def turn (duty direction : Int) : Int :=
  if 100 ≤ duty then -1 else if duty ≤ 0 then 1 else direction

/-- `breathe_timer_fn`, from the moment the timer expires until the handler has returned. -/
def breatheTimerFn (s : State) : Option State :=
  (intArith (s.priv.dutyPercent + s.priv.direction * 2)).map fun duty =>
    State.pwmConfig { s with priv :=
      { dutyPercent := duty
        direction := turn duty s.priv.direction
        breathing := s.priv.breathing
        breatheTimer :=
          if s.priv.breathing then (s.priv.breatheTimer.expire.mod ()).finish
          else s.priv.breatheTimer.expire.finish } } (dutyNs duty)

/-- A write to one of the attributes, or a tick of the timer. -/
inductive Call where
  | dutyStore (buf : CStr) (count : Nat)
  | breatheStore (buf : CStr) (count : Nat)
  | breatheTimer
deriving DecidableEq

/-- One call; a tick of the timer returns nothing. -/
def step (kstrtoint : Kstrtoint) : Machine.Step State Call Int := fun s c =>
  match c with
  | .dutyStore buf count => some (dutyStore kstrtoint s buf count)
  | .breatheStore buf count => some (breatheStore kstrtoint s buf count)
  | .breatheTimer => (breatheTimerFn s).map fun s' => (0, s')

/-- The duty is a percentage, and the PWM was never set up with more than its period. -/
structure InRange (s : State) : Prop where
  duty : 0 ≤ s.priv.dutyPercent ∧ s.priv.dutyPercent ≤ 100
  configured : ∀ duty ∈ s.configured, duty ≤ periodNs

/-- A tick of the timer has room for its step of two percent. -/
def RoomForStep (s : State) (c : Call) : Prop :=
  c = .breatheTimer →
    (s.priv.direction = 1 → s.priv.dutyPercent ≤ 98) ∧
      (s.priv.direction = -1 → 2 ≤ s.priv.dutyPercent)

end PwmDriver
