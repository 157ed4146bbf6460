import LinuxHandson.Drivers.WdtDemo

/-!
# The deadline and the removal

Up to the removal the timer is always where it should be. `wdt_demo_remove` finds its data through the
driver data of the platform device, which nothing has set.
-/

namespace WdtDemo

open CLib KTimer

variable {hz : Nat} {s s' : State} {c : Call} {r : Unit}

/-- The driver works, and cannot be removed. -/
structure Working (hz : Nat) (s : State) : Prop where
  timed : Timed hz s
  wddDrvdata : s.priv.wdd.drvdata = true
  pdevDrvdata : s.pdevDrvdata = false
  present : s.removed = false
  timeout : s.priv.wdd.timeout = s.history.timeout
  timeoutLe : s.priv.wdd.timeout ≤ 120
  maxTimeout : s.priv.wdd.maxTimeout = 120

theorem working_probe (hz jiffies : Nat) : Working hz (wdtDemoProbe jiffies) where
  timed := ⟨nofun, fun _ => Timer.not_armed_setup Timer.zero, nofun⟩
  wddDrvdata := rfl
  pdevDrvdata := rfl
  present := rfl
  timeout := rfl
  timeoutLe := (by decide : 10 ≤ 120)
  maxTimeout := rfl

/-- `mod_timer` sets the deadline; the product does not overflow. -/
theorem modTimer_expires (hhz : 120 * hz < 2 ^ 32) (ht : s.priv.wdd.timeout ≤ 120) :
    (s.modTimer hz).priv.timer.expires = some (sizeT (s.jiffies + s.priv.wdd.timeout * hz)) := by
  have hle : s.priv.wdd.timeout * hz < 2 ^ 32 :=
    Nat.lt_of_le_of_lt (Nat.mul_le_mul_right hz ht) hhz
  have hmul : uint32 (s.priv.wdd.timeout * hz) = s.priv.wdd.timeout * hz := by
    have := uint32_natCast hle
    exact_mod_cast this
  show some (sizeT (s.jiffies + uint32 (s.priv.wdd.timeout * hz))) = _
  rw [hmul]
  push_cast
  rfl

theorem timed_of_deadline (hactive : s.priv.wdd.active = true) (hpresent : s.removed = false)
    (h : s.priv.timer.expires = some (sizeT (s.history.setAt + s.history.timeout * hz))) :
    Timed hz s := by
  refine ⟨fun _ _ _ => h, ?_, ?_⟩
  · intro hidle
    exact absurd (hactive.symm.trans hidle) nofun
  · intro hremoved
    exact absurd (hpresent.symm.trans hremoved) nofun

theorem timed_of_not_armed (h : ¬ s.priv.timer.Armed)
    (hidle : s.priv.wdd.active = true → s.history.expired ≠ false) : Timed hz s :=
  ⟨fun hactive hexpired _ => absurd hexpired (hidle hactive), fun _ => h, fun _ => h⟩

/-- The timer is set while the device is, or becomes, active: `t` is the timeout of the driver then, and
`asked` the one that was asked for last. -/
theorem Working.modTimer (hhz : 120 * hz < 2 ^ 32) (hs : Working hz s) {t asked : Nat} (ht : t ≤ 120)
    (hasked : t = asked) (running : Bool) {active : Bool} (hactive : active = true) :
    let s1 : State := { s with priv := { s.priv with wdd := { s.priv.wdd with timeout := t } } }
    Working hz { State.setActive { s1.modTimer hz with
      priv := { (s1.modTimer hz).priv with running := running } } active with
      history := ⟨s.jiffies, asked, false⟩ } := by
  intro s1
  subst hasked
  exact ⟨timed_of_deadline hactive hs.present (modTimer_expires (s := s1) hhz ht), hs.wddDrvdata,
    hs.pdevDrvdata, hs.present, rfl, ht, hs.maxTimeout⟩

/-- A call that the driver answers. -/
theorem step_of_driver {s1 : State} (h : driver hz s c = some s1) :
    WdtDemo.step hz s c = some ((), { s1 with history := s.history.after s.jiffies c }) := by
  rw [WdtDemo.step, call, h]
  rfl

/-- `wdt_demo_set_timeout` sets the timer again if the device is active. -/
theorem Working.setTimeout (hhz : 120 * hz < 2 ^ 32) (hs : Working hz s) {t : Nat} (ht : t ≤ 120) :
    ∃ s', WdtDemo.step hz s (.setTimeout t) = some ((), s') ∧ Working hz s' := by
  let s1 : State := { s with priv := { s.priv with wdd := { s.priv.wdd with timeout := t } } }
  rcases hactive : s.priv.wdd.active with _ | _
  · have hnot : ¬ s1.priv.wdd.active = true := by
      show ¬ s.priv.wdd.active = true
      rw [hactive]
      exact Bool.false_ne_true
    have hcall : wdtDemoSetTimeout hz t s = some s1 := if_neg hnot
    have htimed : Timed hz { s1 with history := ⟨s.jiffies, t, false⟩ } := by
      refine timed_of_not_armed (hs.timed.stopped hactive) ?_
      intro h
      exact absurd h hnot
    exact ⟨_, step_of_driver hcall, ⟨htimed, hs.wddDrvdata, hs.pdevDrvdata, hs.present, rfl, ht,
      hs.maxTimeout⟩⟩
  · have hping : wdtDemoPing hz s1 = some (s1.modTimer hz) := if_pos hs.wddDrvdata
    have hcall : wdtDemoSetTimeout hz t s = some (s1.modTimer hz) := (if_pos hactive).trans hping
    exact ⟨_, step_of_driver hcall, hs.modTimer hhz ht rfl s.priv.running hactive⟩

/-- Every call but the removal is defined, and leaves a driver that works. -/
theorem Working.step (hhz : 120 * hz < 2 ^ 32) (hs : Working hz s) (hc : CoreCall s c)
    (hrem : c ≠ .remove) : ∃ s', step hz s c = some ((), s') ∧ Working hz s' := by
  obtain ⟨-, hc⟩ := hc
  cases c with
  | start =>
    have hcall : wdtDemoStart hz s = some { s.modTimer hz with
      priv := { (s.modTimer hz).priv with running := true } } := if_pos hs.wddDrvdata
    have hdriver := congrArg (Option.map fun s' : State => s'.setActive true) hcall
    exact ⟨_, step_of_driver (c := .start) hdriver, hs.modTimer hhz hs.timeoutLe hs.timeout true rfl⟩
  | ping =>
    have hcall : wdtDemoPing hz s = some (s.modTimer hz) := if_pos hs.wddDrvdata
    have hactive : s.priv.wdd.active = true := hc
    exact ⟨_, step_of_driver hcall,
      hs.modTimer hhz hs.timeoutLe hs.timeout s.priv.running hactive⟩
  | setTimeout t => exact hs.setTimeout hhz (hs.maxTimeout ▸ hc.2)
  | stop =>
    let s1 : State := { s with priv := { s.priv with timer := s.priv.timer.del, running := false } }
    have hcall : wdtDemoStop s = some s1 := if_pos hs.wddDrvdata
    have hdriver := congrArg (Option.map fun s' : State => s'.setActive false) hcall
    have htimed : Timed hz (s1.setActive false) :=
      timed_of_not_armed (Timer.not_armed_del s.priv.timer) nofun
    exact ⟨_, step_of_driver (c := .stop) hdriver, ⟨htimed, hs.wddDrvdata, hs.pdevDrvdata, hs.present,
      hs.timeout, hs.timeoutLe, hs.maxTimeout⟩⟩
  | expire =>
    have hcall : wdtExpired s = some { s with
      priv := { s.priv with timer := s.priv.timer.expire.finish } } := if_pos hc
    have htimed : Timed hz { s with
        priv := { s.priv with timer := s.priv.timer.expire.finish }
        history := { s.history with expired := true } } :=
      timed_of_not_armed (Timer.not_armed_expire s.priv.timer) fun _ => nofun
    exact ⟨_, step_of_driver hcall, ⟨htimed, hs.wddDrvdata, hs.pdevDrvdata, hs.present, hs.timeout,
      hs.timeoutLe, hs.maxTimeout⟩⟩
  | jiffy =>
    exact ⟨_, rfl, ⟨⟨hs.timed.deadline, hs.timed.stopped, hs.timed.removed⟩, hs.wddDrvdata,
      hs.pdevDrvdata, hs.present, hs.timeout, hs.timeoutLe, hs.maxTimeout⟩⟩
  | remove => exact absurd rfl hrem

/-- The removal goes through a null pointer. -/
theorem Working.remove (hs : Working hz s) : WdtDemo.step hz s .remove = none := by
  have hnot : ¬ s.pdevDrvdata = true := by
    rw [hs.pdevDrvdata]
    exact Bool.false_ne_true
  have hcall : driver hz s .remove = none := if_neg hnot
  rw [WdtDemo.step, call, hcall]
  rfl

/-- From a driver that works, a run of promised calls is defined and keeps the timer right exactly if
the driver is not removed. -/
theorem Working.run_iff (hhz : 120 * hz < 2 ^ 32) (cs : List Call) :
    ∀ s, Working hz s → Machine.Legal (WdtDemo.step hz) CoreCall s cs →
      (((∃ rs s', Machine.exec (WdtDemo.step hz) s cs = some (rs, s')) ∧
          Machine.Always (WdtDemo.step hz) (Timed hz) s cs) ↔ .remove ∉ cs) := by
  induction cs with
  | nil =>
    intro s hs _
    exact ⟨fun _ => List.not_mem_nil, fun _ => ⟨⟨[], s, rfl⟩, hs.timed⟩⟩
  | cons c cs ih =>
    intro s hs hl
    by_cases hrem : c = .remove
    · subst hrem
      refine ⟨?_, fun h => absurd List.mem_cons_self h⟩
      rintro ⟨⟨rs, s', he⟩, -⟩
      rw [Machine.exec, hs.remove] at he
      cases he
    · obtain ⟨s1, h1, hs1⟩ := hs.step hhz hl.1 hrem
      have hih := ih s1 hs1 (hl.2 () s1 h1)
      constructor
      · rintro ⟨⟨rs, s', he⟩, ha⟩ hmem
        rw [Machine.exec_cons cs h1] at he
        obtain ⟨⟨rs', s2⟩, he', -⟩ := Option.map_eq_some_iff.mp he
        have hnot := hih.mp ⟨⟨rs', s2, he'⟩, ha.2 () s1 h1⟩
        rcases List.mem_cons.mp hmem with hmem | hmem
        · exact hrem hmem.symm
        · exact hnot hmem
      · intro hmem
        obtain ⟨⟨rs, s', he⟩, ha⟩ := hih.mpr fun h => hmem (List.mem_cons_of_mem c h)
        refine ⟨⟨() :: rs, s', ?_⟩, hs.timed, ?_⟩
        · rw [Machine.exec_cons cs h1, he]
          rfl
        · intro r s2 h2
          rw [h1] at h2
          obtain ⟨-, rfl⟩ := Prod.mk.inj (Option.some.inj h2)
          exact ha

/-- Calls that keep the promises of the core are all defined, with the deadline of the timer right and
no timer left armed, exactly if the driver is never removed. -/
theorem wdt_timed_iff (hz jiffies : Nat) (hhz : 120 * hz < 2 ^ 32) (cs : List Call)
    (hl : Machine.Legal (step hz) CoreCall (wdtDemoProbe jiffies) cs) :
    ((∃ rs s, Machine.exec (step hz) (wdtDemoProbe jiffies) cs = some (rs, s)) ∧
        Machine.Always (step hz) (Timed hz) (wdtDemoProbe jiffies) cs) ↔ .remove ∉ cs :=
  Working.run_iff hhz cs _ (working_probe hz jiffies) hl

/-- A start, two pings after a change of the timeout, and a stop. -/
def pinged : List Call :=
  [.start, .jiffy, .ping, .setTimeout 30, .jiffy, .ping, .expire, .stop]

theorem wdt_timed_iff_pinged :
    ((∃ rs s, Machine.exec (step 250) (wdtDemoProbe 7) pinged = some (rs, s)) ∧
        Machine.Always (step 250) (Timed 250) (wdtDemoProbe 7) pinged) ↔ .remove ∉ pinged :=
  wdt_timed_iff 250 7 (by decide) pinged (by decide)

/-- A started watchdog is removed. -/
theorem remove_undefined :
    Machine.Legal (step 250) CoreCall (wdtDemoProbe 0) [.start, .remove] ∧
      Machine.exec (step 250) (wdtDemoProbe 0) [.start, .remove] = none := by
  refine ⟨by decide, rfl⟩

end WdtDemo
