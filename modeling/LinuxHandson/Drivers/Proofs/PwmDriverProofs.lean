import LinuxHandson.Drivers.PwmDriver

/-!
# The range of the duty

`breathe_timer_fn` turns around only after it has moved, so the duty stays a percentage exactly when
each tick has room for its step. A duty set by hand between two ticks can take that room away.
-/

namespace PwmDriver

open CLib

variable {kstrtoint : Kstrtoint} {s s' : State} {c : Call} {r : Int}

/-! ## What the calls do -/

/-- What a call does to the duty, to the direction and to the values passed on. -/
inductive Change (s s' : State) (c : Call) : Prop where
  /-- An error, or a call that has nothing to do. -/
  | kept (hc : c ≠ .breatheTimer) (hduty : s'.priv.dutyPercent = s.priv.dutyPercent)
      (hdir : s'.priv.direction = s.priv.direction) (hconf : s'.configured = s.configured)
  /-- A percentage from user space. -/
  | set (hc : c ≠ .breatheTimer) (h0 : 0 ≤ s'.priv.dutyPercent) (h100 : s'.priv.dutyPercent ≤ 100)
      (hdir : s'.priv.direction = s.priv.direction)
      (hconf : s'.configured = s.configured ++ [dutyNs s'.priv.dutyPercent])
  /-- The breathing starts. -/
  | started (hc : c ≠ .breatheTimer) (hduty : s'.priv.dutyPercent = 0)
      (hdir : s'.priv.direction = 1) (hconf : s'.configured = s.configured)
  /-- A tick. -/
  | tick (hc : c = .breatheTimer)
      (hduty : s'.priv.dutyPercent = s.priv.dutyPercent + s.priv.direction * 2)
      (hdir : s'.priv.direction = turn s'.priv.dutyPercent s.priv.direction)
      (hconf : s'.configured = s.configured ++ [dutyNs s'.priv.dutyPercent])

theorem step_change (h : step kstrtoint s c = some (r, s')) : Change s s' c := by
  cases c with
  | dutyStore buf count =>
    have hs' := congrArg Prod.snd (Option.some.inj h)
    subst hs'
    unfold dutyStore
    split
    · exact .kept nofun rfl rfl rfl
    · split
      · exact .kept nofun rfl rfl rfl
      · next hval =>
        obtain ⟨h0, h100⟩ := not_or.mp hval
        exact .set nofun (Int.not_lt.mp h0) (Int.not_lt.mp h100) rfl rfl
  | breatheStore buf count =>
    have hs' := congrArg Prod.snd (Option.some.inj h)
    subst hs'
    unfold breatheStore
    split
    · exact .kept nofun rfl rfl rfl
    · split
      · exact .started nofun rfl rfl rfl
      · split
        · exact .kept nofun rfl rfl rfl
        · exact .kept nofun rfl rfl rfl
  | breatheTimer =>
    obtain ⟨s1, hs1, heq⟩ := Option.map_eq_some_iff.mp h
    obtain ⟨-, rfl⟩ := Prod.mk.inj heq
    obtain ⟨duty, hduty, rfl⟩ := Option.map_eq_some_iff.mp hs1
    exact .tick rfl (eq_of_intArith hduty) rfl rfl

/-! ## The bounds that hold without any condition -/

/-- The duty after any calls: at most one step outside the percentages, and then on the way back. -/
structure NearRange (s : State) : Prop where
  direction : s.priv.direction = 0 ∨ s.priv.direction = 1 ∨ s.priv.direction = -1
  low : -2 ≤ s.priv.dutyPercent
  high : s.priv.dutyPercent ≤ 102
  rising : s.priv.direction ≠ -1 → s.priv.dutyPercent ≤ 100
  falling : s.priv.direction ≠ 1 → 0 ≤ s.priv.dutyPercent

theorem turn_cases (duty direction : Int) :
    (100 ≤ duty ∧ turn duty direction = -1) ∨ (duty ≤ 0 ∧ turn duty direction = 1) ∨
      (0 < duty ∧ duty < 100 ∧ turn duty direction = direction) := by
  unfold turn
  split
  · next h => exact .inl ⟨h, rfl⟩
  · next h =>
    split
    · next h0 => exact .inr (.inl ⟨h0, rfl⟩)
    · next h0 => exact .inr (.inr ⟨by omega, by omega, rfl⟩)

theorem nearRange_probed : NearRange probed :=
  ⟨.inl rfl, by decide, by decide, fun _ => by decide, fun _ => by decide⟩

/-- A tick moves the duty by at most one step and turns around at both ends. -/
theorem NearRange.tick (hs : NearRange s)
    (hduty : s'.priv.dutyPercent = s.priv.dutyPercent + s.priv.direction * 2)
    (hdir : s'.priv.direction = turn s'.priv.dutyPercent s.priv.direction) : NearRange s' := by
  obtain ⟨hd, hlow, hhigh, hrise, hfall⟩ := hs
  rcases turn_cases s'.priv.dutyPercent s.priv.direction with ⟨h, ht⟩ | ⟨h, ht⟩ | ⟨h0, h100, ht⟩
  all_goals rw [ht] at hdir
  all_goals rcases hd with hd | hd | hd
  all_goals constructor <;> omega

theorem NearRange.step (hs : NearRange s) (h : step kstrtoint s c = some (r, s')) :
    NearRange s' := by
  cases step_change h with
  | kept hc hduty hdir hconf =>
    obtain ⟨hd, hlow, hhigh, hrise, hfall⟩ := hs
    constructor <;> omega
  | set hc h0 h100 hdir hconf =>
    obtain ⟨hd, hlow, hhigh, hrise, hfall⟩ := hs
    constructor <;> omega
  | started hc hduty hdir hconf => constructor <;> omega
  | tick hc hduty hdir hconf => exact hs.tick hduty hdir

/-! ## Percentages -/

theorem dutyNs_le {percent : Int} (h0 : 0 ≤ percent) (h100 : percent ≤ 100) :
    dutyNs percent ≤ periodNs := by
  have hsize := @sizeT_of_lt (1000000 * percent) (by omega) (by omega)
  show sizeT (1000000 * percent) / 100 ≤ 1000000
  omega

theorem inRange_probed : InRange probed := by
  refine ⟨⟨by decide, by decide⟩, ?_⟩
  intro duty hduty
  rw [List.mem_singleton.mp hduty]
  exact Nat.zero_le periodNs

theorem InRange.append (hs : InRange s) (h0 : 0 ≤ s'.priv.dutyPercent)
    (h100 : s'.priv.dutyPercent ≤ 100)
    (hconf : s'.configured = s.configured ++ [dutyNs s'.priv.dutyPercent]) : InRange s' := by
  refine ⟨⟨h0, h100⟩, ?_⟩
  intro duty hduty
  rw [hconf] at hduty
  rcases List.mem_append.mp hduty with hduty | hduty
  · exact hs.configured duty hduty
  · rw [List.mem_singleton.mp hduty]
    exact dutyNs_le h0 h100

/-- A tick with room for its step stays among the percentages. -/
theorem InRange.step (hs : InRange s) (hn : NearRange s) (hc : RoomForStep s c)
    (h : step kstrtoint s c = some (r, s')) : InRange s' ∧ NearRange s' := by
  refine ⟨?_, hn.step h⟩
  have hlow := hs.duty.1
  have hhigh := hs.duty.2
  cases step_change h with
  | kept hc hduty hdir hconf =>
    refine ⟨by omega, ?_⟩
    rw [hconf]
    exact hs.configured
  | set hc h0 h100 hdir hconf => exact hs.append h0 h100 hconf
  | started hc hduty hdir hconf =>
    refine ⟨by omega, ?_⟩
    rw [hconf]
    exact hs.configured
  | tick hc' hduty hdir hconf =>
    obtain ⟨hrise, hfall⟩ := hc hc'
    rcases hn.direction with hd | hd | hd
    · exact hs.append (by omega) (by omega) hconf
    · have := hrise hd
      exact hs.append (by omega) (by omega) hconf
    · have := hfall hd
      exact hs.append (by omega) (by omega) hconf

theorem tick_ok (hs : NearRange s) : ∃ s', step kstrtoint s .breatheTimer = some (0, s') := by
  have hint : ∃ duty, intArith (s.priv.dutyPercent + s.priv.direction * 2) = some duty := by
    obtain ⟨hd, hlow, hhigh, hrise, hfall⟩ := hs
    refine ⟨s.priv.dutyPercent + s.priv.direction * 2, intArith_of_range ?_ ?_⟩
    · rcases hd with hd | hd | hd <;> omega
    · rcases hd with hd | hd | hd <;> omega
  obtain ⟨duty, hduty⟩ := hint
  show ∃ s', (breatheTimerFn s).map (fun s' => ((0 : Int), s')) = some (0, s')
  rw [breatheTimerFn, hduty]
  exact ⟨_, rfl⟩

/-- A tick that stays among the percentages had room for its step. -/
theorem roomForStep_of_inRange (hs : NearRange s)
    (h : ∀ r s', step kstrtoint s c = some (r, s') → InRange s') : RoomForStep s c := by
  rintro rfl
  obtain ⟨s', hs'⟩ := @tick_ok kstrtoint s hs
  have hrange := (h 0 s' hs').duty
  cases step_change hs' with
  | kept hc hduty hdir hconf => exact absurd rfl hc
  | set hc h0 h100 hdir hconf => exact absurd rfl hc
  | started hc hduty hdir hconf => exact absurd rfl hc
  | tick hc hduty hdir hconf =>
    refine ⟨?_, ?_⟩
    · intro hd
      omega
    · intro hd
      omega

/-- The duty is always a percentage, and no duty passed to `pwm_config` exceeds the period, exactly
in the runs in which each tick of the timer has room for its step. -/
theorem duty_in_range_iff (kstrtoint : Kstrtoint) (cs : List Call) :
    Machine.Always (step kstrtoint) InRange probed cs ↔
      Machine.Legal (step kstrtoint) RoomForStep probed cs := by
  refine Machine.always_iff_legal (fun s (hs : InRange s ∧ NearRange s) => hs.1) ?_ ?_ cs probed
    ⟨inRange_probed, nearRange_probed⟩
  · intro s c r s' hs hc h
    exact hs.1.step hs.2 hc h
  · intro s c hs hstep
    exact roomForStep_of_inRange hs.2 hstep

/-- While the LED breathes upwards, 99 percent are set by hand. -/
def setWhileBreathing : List Call :=
  [.breatheStore (.ofBuf [0x31]) 1, .dutyStore (.ofBuf [0x39, 0x39]) 2, .breatheTimer]

/-- `kstrtoint` on texts of decimal digits. -/
def kstrtointDigits : Kstrtoint := fun buf =>
  some (Int32.ofNat (buf.bytes.foldl (fun n d => 10 * n + (d.toNat - 0x30)) 0))

theorem duty_exceeds_hundred :
    (Machine.exec (step kstrtointDigits) probed setWhileBreathing).map
        (fun p => (p.2.priv.dutyPercent, p.2.configured)) = some (101, [0, 990000, 1010000]) ∧
      ¬ Machine.Always (step kstrtointDigits) InRange probed setWhileBreathing := by
  refine ⟨by decide, ?_⟩
  intro h
  have h101 := (h.2 _ _ rfl).2 _ _ rfl
  have hrange := (h101.2 _ _ rfl).duty.2
  revert hrange
  decide

end PwmDriver
