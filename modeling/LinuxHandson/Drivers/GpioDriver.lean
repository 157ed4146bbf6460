import LinuxHandson.Lib.Jiffies

/-!
# The button of the GPIO driver

`button_isr` toggles the LED at each press of the button that it counts, and ignores what comes within
200 milliseconds of the last counted press. It knows that press by a reading of `jiffies`, which is zero
before the first one.
-/

namespace GpioDriver

open CLib

variable {w : LongWidth}

/-- `struct gpio_demo_priv` without its handles, and the level of the LED. -/
structure GpioDemoPriv (w : LongWidth) where
  ledState : Bool
  lastIrqTime : ULong w
  pressCount : ULong w
  ledGpio : Bool
deriving DecidableEq

/-- `gpio_demo_probe`, which allocates zeros and sets the LED low. -/
def gpioDemoProbe (w : LongWidth) : GpioDemoPriv w := ⟨false, 0, 0, false⟩

/-- `DEBOUNCE_MS` -/
def debounceMs : Nat := 200

/-- The ticks of `DEBOUNCE_MS`. -/
def debounce (hz : Hz) : Nat := msecsToJiffies hz debounceMs

/-- `button_isr`, which ignores an interrupt within the debounce time. -/
def buttonIsr (hz : Hz) (priv : GpioDemoPriv w) (now : ULong w) : GpioDemoPriv w :=
  if timeBefore now (priv.lastIrqTime + BitVec.ofNat _ (debounce hz)) then priv
  else
    { lastIrqTime := now
      pressCount := priv.pressCount + 1
      ledState := !priv.ledState
      ledGpio := !priv.ledState }

/-- `jiffies` at a number of ticks after it was `start`. -/
def jiffiesAt (start : ULong w) (t : Nat) : ULong w := start + BitVec.ofNat _ t

/-- The state after interrupts at some times. -/
def run (hz : Hz) (start : ULong w) (priv : GpioDemoPriv w) (ts : List Nat) : GpioDemoPriv w :=
  ts.foldl (fun priv t => buttonIsr hz priv (jiffiesAt start t)) priv

/-- Which of the interrupts are counted. -/
def presses (hz : Hz) (start : ULong w) : GpioDemoPriv w → List Nat → List Bool
  | _, [] => []
  | priv, t :: ts =>
    ((buttonIsr hz priv (jiffiesAt start t)).pressCount != priv.pressCount) ::
      presses hz start (buttonIsr hz priv (jiffiesAt start t)) ts

/-- The LED is on after an odd number of presses. -/
def GpioDemoPriv.LedParity (priv : GpioDemoPriv w) : Prop :=
  priv.ledState = decide (priv.pressCount.toNat % 2 = 1)

/-! ## The law -/

/-- An interrupt is to be counted if it is the first one, or comes at least 200 milliseconds after the
last one that was. -/
def due (hz : Hz) (last : Option Nat) (t : Nat) : Bool :=
  match last with
  | none => true
  | some l => debounceMs * hz.val ≤ 1000 * (t - l)

/-- Which interrupts are to be counted. -/
def law (hz : Hz) : Option Nat → List Nat → List Bool
  | _, [] => []
  | last, t :: ts => due hz last t :: law hz (if due hz last t then some t else last) ts

/-- The driver counts by the law, and the LED shows the parity of the count all along. -/
def Debounces (hz : Hz) (start : ULong w) (ts : List Nat) : Prop :=
  presses hz start (gpioDemoProbe w) ts = law hz none ts ∧
    ∀ n, (run hz start (gpioDemoProbe w) (ts.take n)).LedParity

/-- `jiffies` has gone by less than half its range since the end of the debounce time, which for the
first interrupt is counted from the reading zero. -/
def Fresh (hz : Hz) (start : ULong w) (last : Option Nat) (t : Nat) : Prop :=
  match last with
  | none => 2 * (jiffiesAt start t - BitVec.ofNat _ (debounce hz)).toNat < 2 ^ w.bits
  | some l => 2 * ((t - l - debounce hz) % 2 ^ w.bits) < 2 ^ w.bits

/-- Every interrupt that is to be counted comes at such a time. -/
def AllFresh (hz : Hz) (start : ULong w) : Option Nat → List Nat → Prop
  | _, [] => True
  | last, t :: ts => (due hz last t = true → Fresh hz start last t) ∧
      AllFresh hz start (if due hz last t then some t else last) ts

end GpioDriver
