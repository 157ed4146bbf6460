import LinuxHandson.Drivers.UioDemo
import LinuxHandson.Drivers.UioSim

/-!
# Control calls during the initialisation

Both drivers register the device before they set up its timer, so that `irqcontrol` can be called on a
timer that does not exist yet. In `uio_sim` the flag and the timer, which two parties change in two
steps each, can also come to disagree.
-/

namespace UioSim

open KTimer

variable {s s' : State} {e : Event} {r : Unit}

/-- The handler has been started and will arm the timer again if `enabled` stays true. -/
def Busy (s : State) : Prop := s.handler ≠ .idle ∧ s.handler ≠ .leave

/-- Where the timer is armed or its handler running, by the places of the others. -/
structure Inv (s : State) : Prop where
  setUp : s.early = false
  ready : s.timer.ready = true ↔ s.init ≠ .setup
  running : s.timer.running = true ↔ s.handler ≠ .idle
  /-- Nothing arms the timer before it is set up. -/
  before : s.init = .setup → ¬ s.timer.Armed ∧ s.handler = .idle
  on : s.control = .on → s.enabled = true
  enabled : s.init = .done → s.control = .none → s.enabled = true → s.timer.Armed ∨ Busy s
  disabled : s.init = .done → s.control = .none → s.enabled = false →
    ¬ s.timer.Armed ∧ s.handler = .idle

theorem inv_registered : Inv registered :=
  ⟨rfl, ⟨nofun, fun h => absurd rfl h⟩, ⟨nofun, fun h => absurd rfl h⟩,
    fun _ => ⟨Timer.not_armed_zero, rfl⟩, nofun, nofun, nofun⟩

theorem Inv.sound (h : Inv s) : Sound s := by
  refine ⟨h.setUp, ?_⟩
  intro hd hc
  constructor
  · intro ha
    by_contra hen
    obtain ⟨hna, hidle⟩ := h.disabled hd hc (Bool.eq_false_iff.mpr hen)
    rcases ha with ha | ha
    · exact hna ha
    · exact h.running.mp ha hidle
  · intro hen
    rcases h.enabled hd hc hen with ha | hb
    · exact .inl ha
    · exact .inr (h.running.mpr hb.1)

/-- The timer has been set up when a call arms or deletes it. -/
theorem Inv.not_early (h : Inv s) (hi : s.init ≠ .setup) : (s.early || !s.timer.ready) = false := by
  rw [h.setUp, h.ready.mpr hi]
  rfl

theorem Inv.init (h : Inv s) (ho : Orderly s .init) (hs : uioSimInit s = some s') : Inv s' := by
  unfold uioSimInit at hs
  split at hs
  · next hi =>
    cases hs
    obtain ⟨-, hidle⟩ := h.before hi
    exact ⟨h.setUp, ⟨fun _ => nofun, fun _ => rfl⟩, h.running, nofun, h.on, nofun, nofun⟩
  · next hi =>
    cases hs
    have hne : s.init ≠ .setup := by rw [hi]; nofun
    exact ⟨h.setUp, ⟨fun _ => nofun, fun _ => h.ready.mpr hne⟩, h.running, nofun, fun _ => rfl, nofun,
      nofun⟩
  · next hi =>
    cases hs
    have hne : s.init ≠ .setup := by rw [hi]; nofun
    refine ⟨h.not_early hne, ⟨fun _ => nofun, fun _ => h.ready.mpr hne⟩, h.running, nofun, h.on,
      fun _ _ _ => .inl (Timer.armed_mod s.timer ()), ?_⟩
    intro _ hc hen
    have htrue := ho.arm rfl hi hc
    exact absurd (htrue.symm.trans hen) nofun
  · cases hs

theorem Inv.irqcontrol (h : Inv s) {irqOn : Int32} (hs : uioSimIrqcontrol irqOn s = some s') :
    Inv s' := by
  unfold uioSimIrqcontrol at hs
  split at hs
  · cases hs
    have hcontrol : (if irqOn ≠ 0 then ControlLoc.on else .off) ≠ .none := by
      split <;> nofun
    refine ⟨h.setUp, h.ready, h.running, h.before, ?_, fun _ hc => absurd hc hcontrol,
      fun _ hc => absurd hc hcontrol⟩
    intro hc
    by_cases hon : irqOn ≠ 0
    · exact decide_eq_true hon
    · replace hc : (if irqOn ≠ 0 then ControlLoc.on else .off) = .on := hc
      rw [if_neg hon] at hc
      cases hc
  · cases hs

theorem Inv.irqcontrolTimer (h : Inv s) (ho : Orderly s .irqcontrolTimer)
    (hs : irqcontrolTimer s = some s') : Inv s' := by
  unfold UioSim.irqcontrolTimer at hs
  split at hs
  · cases hs
  · next hc =>
    cases hs
    have hne := ho.setUp rfl (by rw [hc]; nofun)
    refine ⟨h.not_early hne, h.ready, h.running, fun hi => absurd hi hne, nofun,
      fun _ _ _ => .inl (Timer.armed_mod s.timer ()), ?_⟩
    intro _ _ hen
    exact absurd ((h.on hc).symm.trans hen) nofun
  · next hc =>
    obtain ⟨s1, h1, rfl⟩ := Option.map_eq_some_iff.mp hs
    have hne := ho.setUp rfl (by rw [hc]; nofun)
    unfold State.delTimerSync at h1
    split at h1
    · cases h1
    · next hrun =>
      cases h1
      have hidle : s.handler = .idle := by
        by_contra hh
        exact hrun (h.running.mpr hh)
      refine ⟨h.not_early hne, h.ready, h.running, fun hi => absurd hi hne, nofun, ?_,
        fun _ _ _ => ⟨Timer.not_armed_del s.timer, hidle⟩⟩
      intro hd _ hen
      have hfalse := ho.off rfl hc (Bool.eq_false_iff.mpr hrun) hd
      exact absurd (hfalse.symm.trans hen) nofun

theorem Inv.expire (h : Inv s) (hs : expire s = some s') : Inv s' := by
  unfold UioSim.expire at hs
  split at hs
  · next ha =>
    cases hs
    refine ⟨h.setUp, h.ready, ⟨fun _ => nofun, fun _ => rfl⟩, ?_, h.on, ?_, ?_⟩
    · intro hi
      exact absurd ha.1 (h.before hi).1
    · intro _ _ _
      exact .inr ⟨nofun, nofun⟩
    · intro hd hc hen
      exact absurd ha.1 (h.disabled hd hc hen).1
  · cases hs

/-- The handler goes on to a place from which it will arm the timer, or leaves when `enabled` is
false. -/
theorem Inv.handler_moved (h : Inv s) (hh : s.handler ≠ .idle) (irqCount : Nat) (regs : List UInt32)
    (l : HandlerLoc) (hidle : l ≠ .idle) (hl : s.enabled = true → l ≠ .leave) :
    Inv { s with irqCount := irqCount, regs := regs, handler := l } := by
  refine ⟨h.setUp, h.ready, ⟨fun _ => hidle, fun _ => h.running.mpr hh⟩, ?_, h.on, ?_, ?_⟩
  · intro hi
    exact absurd (h.before hi).2 hh
  · intro _ _ hen
    exact .inr ⟨hidle, hl hen⟩
  · intro hd hc hen
    exact absurd (h.disabled hd hc hen).2 hh

/-- The handler looks at `enabled`. -/
theorem Inv.handler_checks (h : Inv s) (hh : s.handler ≠ .idle) (l : HandlerLoc) (hidle : l ≠ .idle)
    (hl : l ≠ .leave) : Inv { s with handler := if s.enabled then l else .leave } := by
  refine h.handler_moved hh s.irqCount s.regs _ ?_ ?_
  · split
    · exact hidle
    · nofun
  · intro hen
    rwa [if_pos hen]

theorem Inv.timer (h : Inv s) (hs : uioSimTimer s = some s') : Inv s' := by
  have hne : s.handler ≠ .idle → s.init ≠ .setup := fun hh hi => hh (h.before hi).2
  unfold uioSimTimer at hs
  split at hs
  · cases hs
  · next hh =>
    cases hs
    exact h.handler_checks (by rw [hh]; nofun) _ nofun nofun
  · next hh =>
    cases hs
    exact h.handler_moved (by rw [hh]; nofun) (s.irqCount + 1) (s.regs.set regStatus 1) .retest nofun
      (fun _ => nofun)
  · next hh =>
    cases hs
    exact h.handler_checks (by rw [hh]; nofun) _ nofun nofun
  · next hh =>
    cases hs
    have hbusy : s.handler ≠ .idle := by rw [hh]; nofun
    refine ⟨h.not_early (hne hbusy), h.ready, ⟨fun _ => nofun, fun _ => h.running.mpr hbusy⟩, ?_, h.on,
      fun _ _ _ => .inl (Timer.armed_mod s.timer ()), ?_⟩
    · intro hi
      exact absurd hi (hne hbusy)
    · intro hd hc hen
      exact absurd (h.disabled hd hc hen).2 hbusy
  · next hh =>
    cases hs
    have hbusy : s.handler ≠ .idle := by rw [hh]; nofun
    refine ⟨h.setUp, h.ready, ⟨nofun, fun hidle => absurd rfl hidle⟩, ?_, h.on, ?_, ?_⟩
    · intro hi
      exact absurd hi (hne hbusy)
    · intro hd hc hen
      rcases h.enabled hd hc hen with ha | hb
      · exact .inl ha
      · exact absurd hh hb.2
    · intro hd hc hen
      exact absurd (h.disabled hd hc hen).2 hbusy

theorem Inv.step (h : Inv s) (ho : Orderly s e) (hs : step s e = some (r, s')) : Inv s' := by
  obtain ⟨s1, h1, heq⟩ := Option.map_eq_some_iff.mp hs
  obtain ⟨-, rfl⟩ := Prod.mk.inj heq
  cases e with
  | init => exact h.init ho h1
  | irqcontrol irqOn => exact h.irqcontrol h1
  | irqcontrolTimer => exact h.irqcontrolTimer ho h1
  | expire => exact h.expire h1
  | timer => exact h.timer h1

theorem step_of_next (h : next s e = some s') : UioSim.step s e = some ((), s') := by
  rw [UioSim.step, h]
  rfl

/-- The timer call of `irqcontrol` is made, unless it waits for the handler. -/
theorem irqcontrolTimer_ok (hc : s.control ≠ .none) (hrun : s.timer.running = false) :
    ∃ s', UioSim.irqcontrolTimer s = some s' ∧ s'.early = (s.early || !s.timer.ready) ∧
      s'.init = s.init ∧ s'.enabled = s.enabled ∧ s'.control = .none ∧
        (s.control = .off → s'.timer = s.timer.del) := by
  rcases hcontrol : s.control with _ | _ | _
  · exact absurd hcontrol hc
  · refine ⟨{ s.modTimer with control := .none }, ?_, rfl, rfl, rfl, rfl, nofun⟩
    rw [UioSim.irqcontrolTimer, hcontrol]
  · refine ⟨{ s with
      timer := s.timer.del
      early := s.early || !s.timer.ready
      control := .none }, ?_, rfl, rfl, rfl, rfl, fun _ => rfl⟩
    rw [UioSim.irqcontrolTimer, hcontrol]
    show s.delTimerSync.map _ = _
    rw [State.delTimerSync, if_neg (by rw [hrun]; exact Bool.false_ne_true)]
    rfl

/-- A step that leads to a sound state is an orderly one. -/
theorem orderly_of_sound (h : Inv s)
    (hs : ∀ r s', UioSim.step s e = some (r, s') → Sound s') : Orderly s e := by
  refine ⟨?_, ?_, ?_⟩
  · rintro rfl hc hi
    have hrun : s.timer.running = false := by
      by_contra hrun
      exact h.running.mp (eq_true_of_ne_false hrun) (h.before hi).2
    obtain ⟨s', h1, hearly, -⟩ := irqcontrolTimer_ok hc hrun
    have hready : s.timer.ready = false := by
      by_contra hready
      exact h.ready.mp (eq_true_of_ne_false hready) hi
    have hsound := (hs () s' (step_of_next h1)).setUp
    rw [hearly, hready, h.setUp] at hsound
    cases hsound
  · rintro rfl hc hrun hd
    obtain ⟨s', h1, -, hinit, hen, hcontrol, htimer⟩ := irqcontrolTimer_ok (by rw [hc]; nofun) hrun
    have harmed := (hs () s' (step_of_next h1)).armed (hinit.trans hd) hcontrol
    rw [htimer hc, hen] at harmed
    by_contra hfalse
    rcases harmed.mpr (eq_true_of_ne_false hfalse) with ha | ha
    · exact Timer.not_armed_del s.timer ha
    · exact absurd (hrun.symm.trans ha) nofun
  · rintro rfl hi hc
    have h1 : next s .init = some { s.modTimer with init := .done } := by
      show uioSimInit s = _
      rw [uioSimInit, hi]
    exact ((hs () _ (step_of_next h1)).armed rfl hc).mp (.inl (Timer.armed_mod s.timer ()))

theorem sound_iff_orderly (es : List Event) :
    Machine.Always UioSim.step Sound registered es ↔ Machine.Legal UioSim.step Orderly registered es :=
  Machine.always_iff_legal (fun _ hs => hs.sound) (fun _ _ _ _ hs ho h => Inv.step hs ho h)
    (fun _ _ hs h => orderly_of_sound hs h) es registered inv_registered

/-- A call switches the device off between `enabled = true` and `mod_timer` of the init function. -/
def offBeforeArm : List Event := [.init, .init, .irqcontrol 0, .irqcontrolTimer, .init]

theorem armed_and_disabled :
    (∃ rs s, Machine.exec UioSim.step registered offBeforeArm = some (rs, s) ∧ s.init = .done ∧
      s.control = .none ∧ s.timer.Armed ∧ s.enabled = false) ∧
      ¬ Machine.Always UioSim.step Sound registered offBeforeArm := by
  have hrun : ∃ rs s, Machine.exec UioSim.step registered offBeforeArm = some (rs, s) ∧ s.init = .done ∧
      s.control = .none ∧ s.timer.Armed ∧ s.enabled = false :=
    ⟨_, _, rfl, rfl, rfl, rfl, rfl⟩
  refine ⟨hrun, ?_⟩
  intro h
  obtain ⟨rs, s, he, hd, hc, ha, hen⟩ := hrun
  have htrue := ((h.last he).armed hd hc).mp (.inl ha)
  exact absurd (hen.symm.trans htrue) nofun

end UioSim

namespace UioDemo

open KTimer

variable {s s' : State} {e : Event} {r : Unit}

/-- The timer is used after it is set up only. -/
structure Inv (s : State) : Prop where
  setUp : s.early = false
  ready : s.timer.ready = true ↔ s.init ≠ .setup
  running : s.timer.running = true ↔ s.handler ≠ .idle
  /-- Nothing arms the timer before it is set up. -/
  before : s.init = .setup → ¬ s.timer.Armed ∧ s.handler = .idle

theorem inv_registered : Inv registered :=
  ⟨rfl, ⟨nofun, fun h => absurd rfl h⟩, ⟨nofun, fun h => absurd rfl h⟩,
    fun _ => ⟨Timer.not_armed_zero, rfl⟩⟩

/-- The timer has been set up when a call arms or deletes it. -/
theorem Inv.not_early (h : Inv s) (hi : s.init ≠ .setup) : (s.early || !s.timer.ready) = false := by
  rw [h.setUp, h.ready.mpr hi]
  rfl

theorem Inv.init (h : Inv s) (hs : uioDemoInit s = some s') : Inv s' := by
  unfold uioDemoInit at hs
  split at hs
  · cases hs
    exact ⟨h.setUp, ⟨fun _ => nofun, fun _ => rfl⟩, h.running, nofun⟩
  · next hi =>
    cases hs
    have hne : s.init ≠ .setup := by rw [hi]; nofun
    exact ⟨h.not_early hne, ⟨fun _ => nofun, fun _ => h.ready.mpr hne⟩, h.running, nofun⟩
  · cases hs

theorem Inv.irqcontrolTimer (h : Inv s) (ho : Orderly s .irqcontrolTimer)
    (hs : uioDemoIrqcontrol s = some s') : Inv s' := by
  unfold uioDemoIrqcontrol at hs
  split at hs
  · cases hs
  · next irqOn hc =>
    have hne := ho rfl (by rw [hc]; nofun)
    split at hs
    · cases hs
      exact ⟨h.not_early hne, h.ready, h.running, fun hi => absurd hi hne⟩
    · obtain ⟨s1, h1, rfl⟩ := Option.map_eq_some_iff.mp hs
      unfold State.delTimerSync at h1
      split at h1
      · cases h1
      · cases h1
        exact ⟨h.not_early hne, h.ready, h.running, fun hi => absurd hi hne⟩

theorem Inv.timer (h : Inv s) (hs : uioDemoTimer s = some s') : Inv s' := by
  have hne : s.handler ≠ .idle → s.init ≠ .setup := fun hh hi => hh (h.before hi).2
  unfold uioDemoTimer at hs
  split at hs
  · cases hs
  · next hh =>
    cases hs
    have hbusy : s.handler ≠ .idle := by rw [hh]; nofun
    exact ⟨h.setUp, h.ready, ⟨fun _ => nofun, fun _ => h.running.mpr hbusy⟩,
      fun hi => absurd hi (hne hbusy)⟩
  · next hh =>
    cases hs
    have hbusy : s.handler ≠ .idle := by rw [hh]; nofun
    exact ⟨h.not_early (hne hbusy), h.ready, ⟨fun _ => nofun, fun _ => h.running.mpr hbusy⟩,
      fun hi => absurd hi (hne hbusy)⟩
  · next hh =>
    cases hs
    have hbusy : s.handler ≠ .idle := by rw [hh]; nofun
    exact ⟨h.setUp, h.ready, ⟨nofun, fun hidle => absurd rfl hidle⟩, fun hi => absurd hi (hne hbusy)⟩

theorem Inv.step (h : Inv s) (ho : Orderly s e) (hs : step s e = some (r, s')) : Inv s' := by
  obtain ⟨s1, h1, heq⟩ := Option.map_eq_some_iff.mp hs
  obtain ⟨-, rfl⟩ := Prod.mk.inj heq
  cases e with
  | init => exact h.init h1
  | irqcontrol irqOn =>
    replace h1 : (if s.control = none then _ else none) = some s1 := h1
    split at h1
    · cases h1
      exact ⟨h.setUp, h.ready, h.running, h.before⟩
    · cases h1
  | irqcontrolTimer => exact h.irqcontrolTimer ho h1
  | expire =>
    replace h1 : (if s.timer.Armed ∧ s.timer.running = false then _ else none) = some s1 := h1
    split at h1
    · next ha =>
      cases h1
      exact ⟨h.setUp, h.ready, ⟨fun _ => nofun, fun _ => rfl⟩, fun hi => absurd ha.1 (h.before hi).1⟩
    · cases h1
  | timer => exact h.timer h1

/-- A step that leads to a sound state is an orderly one. -/
theorem orderly_of_sound (h : Inv s) (hs : ∀ r s', UioDemo.step s e = some (r, s') → Sound s') :
    Orderly s e := by
  rintro rfl hc hi
  have hready : s.timer.ready = false := by
    by_contra hready
    exact h.ready.mp (eq_true_of_ne_false hready) hi
  have hrun : ¬ s.timer.running = true := fun hrun => h.running.mp hrun (h.before hi).2
  have hearly : (s.early || !s.timer.ready) = true := by
    rw [hready]
    exact Bool.or_true _
  obtain ⟨irqOn, hirq⟩ := Option.ne_none_iff_exists'.mp hc
  have hcall : ∃ s', uioDemoIrqcontrol s = some s' ∧ s'.early = (s.early || !s.timer.ready) := by
    by_cases hon : irqOn ≠ 0
    · refine ⟨{ s.modTimer with control := none }, ?_, rfl⟩
      rw [uioDemoIrqcontrol, hirq]
      exact if_pos hon
    · refine ⟨{ s with
        timer := s.timer.del
        early := s.early || !s.timer.ready
        control := none }, ?_, rfl⟩
      rw [uioDemoIrqcontrol, hirq]
      refine (if_neg hon).trans ?_
      rw [State.delTimerSync, if_neg hrun]
      rfl
  obtain ⟨s', h1, heq⟩ := hcall
  have hstep : UioDemo.step s .irqcontrolTimer = some ((), s') := by
    show (uioDemoIrqcontrol s).map _ = _
    rw [h1]
    rfl
  have hfalse : s'.early = false := hs () s' hstep
  rw [heq, hearly] at hfalse
  cases hfalse

theorem sound_iff_orderly (es : List Event) :
    Machine.Always UioDemo.step Sound registered es ↔ Machine.Legal UioDemo.step Orderly registered es :=
  Machine.always_iff_legal (fun _ hs => hs.setUp) (fun _ _ _ _ hs ho h => Inv.step hs ho h)
    (fun _ _ hs h => orderly_of_sound hs h) es registered inv_registered

end UioDemo

namespace Uio

/-- In both drivers the runs without a fault are the orderly ones. -/
theorem timer_follows_enabled_iff (es : List UioSim.Event) (ds : List UioDemo.Event) :
    (Machine.Always UioSim.step UioSim.Sound UioSim.registered es ↔
      Machine.Legal UioSim.step UioSim.Orderly UioSim.registered es) ∧
      (Machine.Always UioDemo.step UioDemo.Sound UioDemo.registered ds ↔
        Machine.Legal UioDemo.step UioDemo.Orderly UioDemo.registered ds) :=
  ⟨UioSim.sound_iff_orderly es, UioDemo.sound_iff_orderly ds⟩

end Uio
