import LinuxHandson.Lib.Hrtimer

/-!
# Timer latencies of the real-time driver

`rt_timer_callback` measures how late it runs against an expiry that it computes itself, while the timer
keeps its own. The clock goes on while the code runs, so each reading of it is a value of its own.
-/

namespace RtDemo

open CLib

/-- `NUM_SAMPLES` -/
def numSamples : Nat := 100

/-- The period of the timer, `ktime_set(0, 1000000)`. -/
def period : Int := 1000000

/-- What `struct rt_demo_data` holds of the timer, with the expiry that the timer itself has. -/
structure RtDemoData where
  timerFires : Nat
  timerLatencies : List Int
  timerExpected : Int
  expires : Int
  /-- The timer is queued. -/
  queued : Bool

/-- The two readings of the clock in `rt_demo_init`, by the code and by `hrtimer_start`. -/
structure Start where
  byCode : Int
  byTimer : Int
  nonneg : 0 ≤ byCode
  later : byCode ≤ byTimer
  range : byTimer + period ≤ s64Max

/-- `rt_demo_init`, from the timer on. -/
def rtDemoInit (s : Start) : RtDemoData where
  timerFires := 0
  timerLatencies := List.replicate numSamples 0
  timerExpected := ktimeAddUs s.byCode 1000
  expires := s.byTimer + period
  queued := true

/-- The readings of the clock in one callback, by the code and by `hrtimer_forward_now`. -/
structure Callback where
  now : Int
  forwardNow : Int

/-- `enum hrtimer_restart` -/
inductive HrtimerRestart where
  | norestart
  | restart
deriving DecidableEq

/-- `rt_timer_callback` -/
def rtTimerCallback (d : RtDemoData) (c : Callback) : HrtimerRestart × RtDemoData :=
  if d.timerFires < numSamples then
    (.restart, { d with
      timerLatencies := d.timerLatencies.set d.timerFires (ktimeSub c.now d.timerExpected)
      timerFires := d.timerFires + 1
      timerExpected := ktimeAddUs c.now 1000
      expires := hrtimerForward d.expires c.forwardNow period })
  else (.norestart, d)

/-- The timer expires: it is queued again if the callback asks for it. -/
def fire (d : RtDemoData) (c : Callback) : RtDemoData :=
  { (rtTimerCallback d c).2 with queued := (rtTimerCallback d c).1 = .restart }

/-- The timer expires once for each callback, as long as it is queued. -/
def run (d : RtDemoData) (cs : List Callback) : RtDemoData := cs.foldl fire d

/-- The latencies that were recorded. -/
def RtDemoData.recorded (d : RtDemoData) : List Int := d.timerLatencies.take d.timerFires

/-- What `proc_show` prints of the timer. -/
structure Figures where
  min : Int
  max : Int
  avg : Int
deriving DecidableEq

/-- The variables of the loop over the latencies. -/
structure Totals where
  latMin : Int
  latMax : Int
  latSum : Int

/-- The body of the loop over the latencies. -/
def Totals.add (t : Totals) (val : Int) : Totals where
  latMin := if val < t.latMin then val else t.latMin
  latMax := if t.latMax < val then val else t.latMax
  latSum := s64 (t.latSum + val)

/-- The last part of `proc_show`, which follows the statistics of the locks. -/
def procShow (d : RtDemoData) : Option Figures :=
  if d.timerFires = 0 then none
  else
    let t := d.recorded.foldl Totals.add ⟨s64Max, 0, 0⟩
    some ⟨t.latMin, t.latMax, t.latSum.tdiv d.timerFires⟩

/-! ## Runs -/

/-- Every callback runs when the timer is queued, not before its expiry, and the clock goes on. -/
def Timely : RtDemoData → List Callback → Prop
  | _, [] => True
  | d, c :: cs => (d.queued = true ∧ d.expires ≤ c.now ∧ c.now ≤ c.forwardNow ∧
      c.forwardNow + period ≤ s64Max) ∧ Timely (fire d c) cs

/-- How late the recorded callbacks are, by the expiry that the timer had for each. -/
def trueLatencies : RtDemoData → List Callback → List Int
  | _, [] => []
  | d, c :: cs =>
    if d.timerFires < numSamples then (c.now - d.expires) :: trueLatencies (fire d c) cs else []

/-- The least, the greatest and the average of some latencies. -/
structure Figures.Of (f : Figures) (ls : List Int) : Prop where
  min_mem : f.min ∈ ls
  min_le : ∀ l ∈ ls, f.min ≤ l
  max_mem : f.max ∈ ls
  le_max : ∀ l ∈ ls, l ≤ f.max
  avg : f.avg = ls.sum / ls.length

/-- The recorded latencies are the true ones but for the first, none is negative, and what `proc_show`
prints are the figures of the true latencies. -/
structure Measures (s : Start) (cs : List Callback) : Prop where
  exact : ∀ i, 1 ≤ i →
    (run (rtDemoInit s) cs).recorded[i]? = (trueLatencies (rtDemoInit s) cs)[i]?
  nonneg : ∀ l ∈ (run (rtDemoInit s) cs).recorded, 0 ≤ l
  shown : ∀ f, procShow (run (rtDemoInit s) cs) = some f → f.Of (trueLatencies (rtDemoInit s) cs)

/-- A callback is late by whole periods, and `hrtimer_forward_now` reads the clock within one period. -/
def OnGrid (d : RtDemoData) (c : Callback) : Prop :=
  period ∣ c.now - d.expires ∧ c.forwardNow < c.now + period

/-- Every recorded callback that another one follows is on the grid. -/
def AllOnGrid : RtDemoData → List Callback → Prop
  | _, [] => True
  | d, c :: cs => (cs ≠ [] → d.timerFires + 1 < numSamples → OnGrid d c) ∧ AllOnGrid (fire d c) cs

/-- The figures of the latencies do not change when the first one grows by `delta`: another one is as
small, another one is as large afterwards, and the sum does not come to the next multiple of their
number. -/
def Hidden (delta : Int) : List Int → Prop
  | [] => True
  | l :: ls => (delta = 0 ∨ (∃ x ∈ ls, x ≤ l) ∧ ∃ x ∈ ls, l + delta ≤ x) ∧
      (l + ls.sum) % (ls.length + 1) + delta < ls.length + 1

end RtDemo
