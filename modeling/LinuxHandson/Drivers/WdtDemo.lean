import LinuxHandson.Lib.CInt
import LinuxHandson.Lib.KTimer
import LinuxHandson.Lib.Machine

/-!
# A watchdog over a kernel timer

The driver after a successful `wdt_demo_probe`, under the calls of the watchdog core and of the platform
bus. `HZ` is a parameter. Beside the driver's data stands what no code reads or writes: the calls that
were made of it, as far as a deadline depends on them.
-/

namespace WdtDemo

open CLib KTimer

/-- `DEFAULT_TIMEOUT` -/
def defaultTimeout : Nat := 10

/-- `struct watchdog_device`: its timeouts, the bit `WDOG_ACTIVE` that the core keeps, and whether its
driver data points to the private data. -/
structure WatchdogDevice where
  timeout : Nat
  minTimeout : Nat
  maxTimeout : Nat
  active : Bool
  drvdata : Bool
deriving DecidableEq

/-- `struct wdt_demo_priv` -/
structure WdtDemoPriv where
  wdd : WatchdogDevice
  timer : Timer Nat
  running : Bool
deriving DecidableEq

/-- What was asked of the driver. -/
structure History where
  /-- The time of the last start, ping or change of the timeout. -/
  setAt : Nat
  /-- The timeout that was asked for last. -/
  timeout : Nat
  /-- The timer has expired since `setAt`. -/
  expired : Bool
deriving DecidableEq

/-- The driver's data, the rest of the kernel as far as the driver sees it, and the history. -/
structure State where
  priv : WdtDemoPriv
  /-- The driver data of the platform device points to the private data. -/
  pdevDrvdata : Bool
  jiffies : Nat
  removed : Bool
  history : History
deriving DecidableEq

/-- The memory that `devm_kzalloc` returns to `wdt_demo_probe`. -/
def WdtDemoPriv.zero : WdtDemoPriv := ⟨⟨0, 0, 0, false, false⟩, Timer.zero, false⟩

/-- `wdt_demo_probe`, which sets the driver data of the watchdog and not that of the platform device. -/
def wdtDemoProbe (jiffies : Nat) : State where
  priv := { WdtDemoPriv.zero with
    wdd := ⟨defaultTimeout, 1, 120, false, true⟩
    timer := Timer.zero.setup }
  pdevDrvdata := false
  jiffies := jiffies
  removed := false
  history := ⟨jiffies, defaultTimeout, false⟩

/-- `mod_timer(&priv->timer, jiffies + wdd->timeout * HZ)` -/
def State.modTimer (hz : Nat) (s : State) : State :=
  { s with
    priv := { s.priv with
      timer := s.priv.timer.mod (sizeT (s.jiffies + uint32 (s.priv.wdd.timeout * hz))) } }

/-- `wdt_demo_start` -/
def wdtDemoStart (hz : Nat) (s : State) : Option State :=
  if s.priv.wdd.drvdata then
    let s := s.modTimer hz
    some { s with priv := { s.priv with running := true } }
  else none

/-- `wdt_demo_stop` -/
def wdtDemoStop (s : State) : Option State :=
  if s.priv.wdd.drvdata then
    some { s with priv := { s.priv with timer := s.priv.timer.del, running := false } }
  else none

/-- `wdt_demo_ping` -/
def wdtDemoPing (hz : Nat) (s : State) : Option State :=
  if s.priv.wdd.drvdata then some (s.modTimer hz) else none

/-- `wdt_demo_set_timeout` -/
def wdtDemoSetTimeout (hz t : Nat) (s : State) : Option State :=
  let s := { s with priv := { s.priv with wdd := { s.priv.wdd with timeout := t } } }
  if s.priv.wdd.active then wdtDemoPing hz s else some s

/-- `wdt_demo_remove` -/
def wdtDemoRemove (s : State) : Option State :=
  if s.pdevDrvdata then
    some { s with priv := { s.priv with timer := s.priv.timer.del }, removed := true }
  else none

/-- The core marks the device active, or inactive. -/
def State.setActive (s : State) (active : Bool) : State :=
  { s with priv := { s.priv with wdd := { s.priv.wdd with active := active } } }

/-- What can happen to the driver. -/
inductive Call where
  | start
  | ping
  | setTimeout (t : Nat)
  | stop
  /-- The timer expires, and `wdt_expired` runs. -/
  | expire
  /-- One more jiffy. -/
  | jiffy
  | remove
deriving DecidableEq

/-- The expiry of the timer, with `wdt_expired`, which only logs. -/
def wdtExpired (s : State) : Option State :=
  if s.priv.timer.Armed then
    some { s with priv := { s.priv with timer := s.priv.timer.expire.finish } }
  else none

/-- What the driver does in a call; a call that goes through a null pointer has no result. -/
def driver (hz : Nat) (s : State) : Call → Option State
  | .start => (wdtDemoStart hz s).map fun s' => s'.setActive true
  | .ping => wdtDemoPing hz s
  | .setTimeout t => wdtDemoSetTimeout hz t s
  | .stop => (wdtDemoStop s).map fun s' => s'.setActive false
  | .expire => wdtExpired s
  | .jiffy => some { s with jiffies := sizeT (s.jiffies + 1) }
  | .remove => wdtDemoRemove s

/-- The history after a call that comes at `now`. -/
def History.after (h : History) (now : Nat) : Call → History
  | .start => ⟨now, h.timeout, false⟩
  | .ping => ⟨now, h.timeout, false⟩
  | .setTimeout t => ⟨now, t, false⟩
  | .expire => { h with expired := true }
  | _ => h

/-- A call, whatever the driver makes of it, is entered in the history. -/
def call (hz : Nat) (s : State) (c : Call) : Option State :=
  (driver hz s c).map fun s' => { s' with history := s.history.after s.jiffies c }

/-- One call. -/
def step (hz : Nat) : Machine.Step State Call Unit := fun s c =>
  (call hz s c).map fun s' => ((), s')

/-- What the watchdog core, the timer and the platform bus promise. -/
def CoreCall (s : State) (c : Call) : Prop :=
  s.removed = false ∧
    match c with
    | .start => s.priv.wdd.active = false
    | .ping => s.priv.wdd.active = true
    | .setTimeout t => s.priv.wdd.minTimeout ≤ t ∧ t ≤ s.priv.wdd.maxTimeout
    | .stop => s.priv.wdd.active = true
    | .expire => s.priv.timer.Armed
    | .jiffy => True
    | .remove => True

instance (s : State) : (c : Call) → Decidable (CoreCall s c)
  | .start => inferInstanceAs (Decidable (_ ∧ s.priv.wdd.active = false))
  | .ping => inferInstanceAs (Decidable (_ ∧ s.priv.wdd.active = true))
  | .setTimeout t =>
    inferInstanceAs (Decidable (_ ∧ s.priv.wdd.minTimeout ≤ t ∧ t ≤ s.priv.wdd.maxTimeout))
  | .stop => inferInstanceAs (Decidable (_ ∧ s.priv.wdd.active = true))
  | .expire => inferInstanceAs (Decidable (_ ∧ s.priv.timer.Armed))
  | .jiffy => inferInstanceAs (Decidable (_ ∧ True))
  | .remove => inferInstanceAs (Decidable (_ ∧ True))

/-- A started watchdog that has not expired expires the timeout that was asked for last after the last
start, ping or change of the timeout; a stopped or removed one does not expire. -/
structure Timed (hz : Nat) (s : State) : Prop where
  deadline : s.priv.wdd.active = true → s.history.expired = false → s.removed = false →
    s.priv.timer.expires = some (sizeT (s.history.setAt + s.history.timeout * hz))
  stopped : s.priv.wdd.active = false → ¬ s.priv.timer.Armed
  removed : s.removed = true → ¬ s.priv.timer.Armed

end WdtDemo
