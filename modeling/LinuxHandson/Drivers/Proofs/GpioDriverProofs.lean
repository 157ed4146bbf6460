import LinuxHandson.Drivers.GpioDriver

/-!
# Debouncing over a run

What `button_isr` compares is the wrapped distance from the last counted press, so that the count is
right exactly as long as each press that is to be counted comes in the first half of the range.
-/

namespace GpioDriver

open CLib

variable {w : LongWidth} {hz : Hz} {start : ULong w} {priv : GpioDemoPriv w} {ts : List Nat} {l t : Nat}

/-! ## Times -/

theorem due_some : due hz (some l) t = true ↔ debounce hz ≤ t - l := by
  rw [due, decide_eq_true_iff, debounce, msecsToJiffies_le_iff]

/-- The debounce time is far below half the range of `jiffies`. -/
theorem debounce_range (hz : Hz) (w : LongWidth) :
    0 < debounce hz ∧ 2 * debounce hz ≤ 2 ^ w.bits := by
  have hlower := hz.lower
  have hupper := hz.upper
  have hbits := w.pow_bits
  have hbig := w.pow_bits_ge
  unfold debounce debounceMs msecsToJiffies
  omega

theorem jiffiesAt_add (start : ULong w) (l n : Nat) :
    jiffiesAt start (l + n) = jiffiesAt start l + BitVec.ofNat _ n := by
  rw [jiffiesAt, jiffiesAt, BitVec.ofNat_add, add_assoc]

/-- After a counted press the driver ignores an interrupt exactly if it is not due or comes in the
second half of the range. -/
theorem timeBefore_jiffiesAt (h : l ≤ t) :
    timeBefore (jiffiesAt start t) (jiffiesAt start l + BitVec.ofNat _ (debounce hz)) = true ↔
      (due hz (some l) t = true → ¬ Fresh hz start (some l) t) := by
  obtain ⟨hpos, hhalf⟩ := debounce_range hz w
  obtain ⟨g, rfl⟩ := Nat.exists_eq_add_of_le h
  rw [due_some, Fresh, Nat.add_sub_cancel_left]
  by_cases hd : debounce hz ≤ g
  · obtain ⟨n, rfl⟩ := Nat.exists_eq_add_of_le hd
    rw [← jiffiesAt_add, ← Nat.add_assoc, jiffiesAt_add start (l + debounce hz) n, timeBefore_add_left,
      Nat.add_sub_cancel_left]
    simp only [hd, true_implies, Nat.not_lt]
  · obtain ⟨n, hn⟩ := Nat.exists_eq_add_of_le (Nat.le_of_not_le hd)
    have hignored := timeBefore_add_right (jiffiesAt start (l + g)) (n := n) (by omega) (by omega)
    rw [← jiffiesAt_add, hn, ← Nat.add_assoc, jiffiesAt_add start (l + g) n]
    rw [hn] at hd
    exact iff_of_true hignored fun hdue => absurd hdue hd

/-! ## One interrupt -/

/-- The stamp of the last counted press. -/
def Tracks (start : ULong w) (priv : GpioDemoPriv w) (last : Option Nat) : Prop :=
  priv.lastIrqTime = match last with
    | none => 0
    | some l => jiffiesAt start l

variable {last : Option Nat}

theorem ignores_iff (hz : Hz) (ht : Tracks start priv last) (h : ∀ l ∈ last, l ≤ t) :
    timeBefore (jiffiesAt start t) (priv.lastIrqTime + BitVec.ofNat _ (debounce hz)) = true ↔
      (due hz last t = true → ¬ Fresh hz start last t) := by
  rw [ht]
  cases last with
  | none =>
    simp only [due, true_implies, Fresh, Nat.not_lt]
    rw [zero_add]
    exact timeBefore_iff
  | some l => exact timeBefore_jiffiesAt (h l rfl)

theorem pressCount_ne (n : ULong w) : n + 1 ≠ n := by
  intro h
  have hone : (1 : ULong w) = 0 := by simpa using h
  cases w <;> exact absurd hone (by decide)

theorem buttonIsr_ignored (h : timeBefore (jiffiesAt start t)
    (priv.lastIrqTime + BitVec.ofNat _ (debounce hz)) = true) :
    buttonIsr hz priv (jiffiesAt start t) = priv := if_pos h

theorem buttonIsr_counted (h : timeBefore (jiffiesAt start t)
    (priv.lastIrqTime + BitVec.ofNat _ (debounce hz)) = false) :
    buttonIsr hz priv (jiffiesAt start t) =
      ⟨!priv.ledState, jiffiesAt start t, priv.pressCount + 1, !priv.ledState⟩ := by
  unfold buttonIsr
  rw [if_neg (by simp [h])]

/-- The parity of the count flips with each press, also when the count wraps. -/
theorem parity_succ (n : ULong w) : decide ((n + 1).toNat % 2 = 1) = !decide (n.toNat % 2 = 1) := by
  have hbits := w.pow_bits
  have hone : (1 : ULong w).toNat = 1 := by cases w <;> rfl
  rw [BitVec.toNat_add, hone, ← hbits, Nat.mod_mul_right_mod]
  rcases Nat.mod_two_eq_zero_or_one n.toNat with heven | hodd
  · have hnext : (n.toNat + 1) % 2 = 1 := by omega
    simp [heven, hnext]
  · have hnext : (n.toNat + 1) % 2 = 0 := by omega
    simp [hodd, hnext]

theorem ledParity_step (h : priv.LedParity) (now : ULong w) : (buttonIsr hz priv now).LedParity := by
  unfold buttonIsr
  split
  · exact h
  · unfold GpioDemoPriv.LedParity at h ⊢
    rw [parity_succ, h]

/-! ## Runs -/

theorem ledParity_run (h : priv.LedParity) (ts : List Nat) : (run hz start priv ts).LedParity := by
  induction ts generalizing priv with
  | nil => exact h
  | cons t ts ih => exact ih (ledParity_step h _)

theorem ledParity_probe (w : LongWidth) : (gpioDemoProbe w).LedParity := by
  cases w <;> rfl

/-- The interrupts counted are the due ones if and only if all due ones are fresh. -/
theorem presses_eq_iff (ht : Tracks start priv last) (hts : ts.Pairwise (· ≤ ·))
    (hl : ∀ l ∈ last, ∀ t ∈ ts, l ≤ t) :
    presses hz start priv ts = law hz last ts ↔ AllFresh hz start last ts := by
  induction ts generalizing priv last with
  | nil => exact iff_of_true rfl trivial
  | cons t ts ih =>
    obtain ⟨hle, hts⟩ := List.pairwise_cons.mp hts
    have hignores := ignores_iff hz ht fun l hlast => hl l hlast t List.mem_cons_self
    have hlater : ∀ l ∈ last, ∀ t ∈ ts, l ≤ t := fun l hlast x hx =>
      hl l hlast x (List.mem_cons_of_mem _ hx)
    rw [presses, law, AllFresh, List.cons.injEq]
    cases hbefore : timeBefore (jiffiesAt start t) (priv.lastIrqTime + BitVec.ofNat _ (debounce hz)) with
    | true =>
      have hstale := hignores.mp hbefore
      rw [buttonIsr_ignored hbefore, bne_self_eq_false]
      cases hdue : due hz last t with
      | true =>
        -- a due press is ignored: the two differ here
        exact iff_of_false (fun h => Bool.false_ne_true h.1) fun h => hstale hdue (h.1 rfl)
      | false =>
        simp only [Bool.false_eq_true, if_false, false_implies, true_and]
        exact ih ht hts hlater
    | false =>
      have hfresh : due hz last t = true ∧ Fresh hz start last t := by
        rw [hbefore] at hignores
        simpa using hignores
      rw [buttonIsr_counted hbefore, hfresh.1, if_pos rfl]
      have hcount : (priv.pressCount + 1 != priv.pressCount) = true :=
        bne_iff_ne.mpr (pressCount_ne priv.pressCount)
      simp only [hcount, hfresh.2, true_implies, true_and]
      refine ih rfl hts ?_
      rintro l hlast x hx
      obtain rfl := Option.mem_some.mp hlast
      exact hle x hx

/-- `button_isr` counts the first interrupt and those that come at least 200 milliseconds after the last
one counted, and no other, if and only if each of these comes in the first half of the range of
`jiffies` behind the debounce time of the press before it. -/
theorem gpio_debounces_iff (hz : Hz) (start : ULong w) (ts : List Nat) (hts : ts.Pairwise (· ≤ ·)) :
    Debounces hz start ts ↔ AllFresh hz start none ts := by
  have hcounts : presses hz start (gpioDemoProbe w) ts = law hz none ts ↔ AllFresh hz start none ts :=
    presses_eq_iff rfl hts (by simp)
  rw [Debounces, hcounts]
  exact and_iff_left fun n => ledParity_run (ledParity_probe w) _

/-- 250 ticks a second. -/
def hz250 : Hz := ⟨250, by decide, by decide⟩

/-- The debounce time is 50 ticks, so that of three presses the second is ignored. -/
theorem gpio_debounces_three :
    Debounces hz250 (0 : ULong .long64) [60, 100, 200] ∧
      law hz250 none [60, 100, 200] = [true, false, true] := by
  refine ⟨(gpio_debounces_iff hz250 0 [60, 100, 200] (by decide)).mpr ⟨?_, ?_, ?_, trivial⟩, by decide⟩
  · exact fun _ => show 2 * (_ : Nat) < 2 ^ 64 by decide
  · exact fun hdue => absurd hdue (by decide)
  · exact fun _ => show 2 * ((200 - 60 - 50) % 2 ^ 64) < 2 ^ 64 by decide

/-- `INITIAL_JIFFIES`, which is five minutes before the counter wraps. -/
def initialJiffies : ULong .long32 := BitVec.ofNat 32 (2 ^ 32 - 300 * 250)

/-- On a 32-bit machine a button pressed for the first time ten seconds after the start is ignored. -/
theorem gpio_first_press_ignored :
    presses hz250 initialJiffies (gpioDemoProbe .long32) [2500] = [false] ∧
      law hz250 none [2500] = [true] ∧ ¬ Debounces hz250 initialJiffies [2500] := by
  have hpresses : presses hz250 initialJiffies (gpioDemoProbe .long32) [2500] = [false] := by decide
  have hlaw : law hz250 none [2500] = [true] := by decide
  refine ⟨hpresses, hlaw, fun h => ?_⟩
  have heq := h.1
  rw [hpresses, hlaw] at heq
  exact absurd heq (by decide)

end GpioDriver
