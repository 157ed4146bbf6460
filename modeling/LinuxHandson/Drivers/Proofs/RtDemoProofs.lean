import LinuxHandson.Drivers.RtDemo
import Mathlib.Algebra.Order.BigOperators.Group.List

/-!
# The recorded latencies

The driver expects each callback one period after the last one ran, the timer programs it on the grid of
the first expiry. The two agree for a callback exactly if the one before it was late by whole periods.
-/

namespace RtDemo

open CLib

variable {d : RtDemoData} {c : Callback} {cs : List Callback} {s : Start}

theorem period_pos : 0 < period := by decide

/-! ## One callback -/

/-- The numbers of the driver and the timer are in range. -/
structure Inv (d : RtDemoData) : Prop where
  length : d.timerLatencies.length = numSamples
  fires : d.timerFires ≤ numSamples
  expected : 0 ≤ d.timerExpected ∧ d.timerExpected ≤ s64Max
  expires : 0 ≤ d.expires

theorem fire_full (h : ¬ d.timerFires < numSamples) : fire d c = { d with queued := false } := by
  unfold fire rtTimerCallback
  rw [if_neg h]
  rfl

section Recorded

variable (h : d.timerFires < numSamples)

include h

theorem fire_recorded : fire d c =
    { timerFires := d.timerFires + 1
      timerLatencies := d.timerLatencies.set d.timerFires (ktimeSub c.now d.timerExpected)
      timerExpected := ktimeAddUs c.now 1000
      expires := hrtimerForward d.expires c.forwardNow period
      queued := true } := by
  unfold fire rtTimerCallback
  rw [if_pos h]
  rfl

theorem fires_fire : (fire d c).timerFires = d.timerFires + 1 := by
  rw [fire_recorded h]

theorem expires_fire : (fire d c).expires = hrtimerForward d.expires c.forwardNow period := by
  rw [fire_recorded h]

theorem expected_fire (h0 : 0 ≤ c.now) (hmax : c.now + period ≤ s64Max) :
    (fire d c).timerExpected = c.now + period := by
  have hus : c.now + 1000 * 1000 = c.now + period := rfl
  rw [fire_recorded h]
  simp only [ktimeAddUs, hus]
  exact s64_of_range (by have := period_pos; omega) hmax

theorem latencies_fire (hi : Inv d) (h0 : 0 ≤ c.now) (hmax : c.now ≤ s64Max) :
    (fire d c).timerLatencies = d.timerLatencies.set d.timerFires (c.now - d.timerExpected) := by
  have hexp := hi.expected
  have hsub : s64 (c.now - d.timerExpected) = c.now - d.timerExpected := by
    unfold s64Max at hmax hexp
    exact s64_of_range (by omega) (by unfold s64Max; omega)
  rw [fire_recorded h]
  simp only [ktimeSub, hsub]

theorem recorded_fire (hi : Inv d) (h0 : 0 ≤ c.now) (hmax : c.now ≤ s64Max) :
    (fire d c).recorded = d.recorded ++ [c.now - d.timerExpected] := by
  have hlen : d.timerFires < d.timerLatencies.length := by
    rw [hi.length]
    exact h
  unfold RtDemoData.recorded
  rw [latencies_fire h hi h0 hmax, fires_fire h, List.take_succ_eq_append_getElem (by simpa using hlen),
    List.getElem_set_self, List.take_set_of_le (Nat.le_refl _)]

end Recorded

theorem Inv.fire (hi : Inv d) (hnow : d.expires ≤ c.now) (hfwd : c.now ≤ c.forwardNow)
    (hmax : c.forwardNow + period ≤ s64Max) : Inv (fire d c) := by
  have hpos := period_pos
  have h0 := hi.expires
  by_cases h : d.timerFires < numSamples
  · constructor
    · rw [latencies_fire h hi (by omega) (by omega), List.length_set, hi.length]
    · rw [fires_fire h]
      exact h
    · rw [expected_fire h (by omega) (by omega)]
      exact ⟨by omega, by omega⟩
    · rw [expires_fire h]
      have hlt := lt_hrtimerForward d.expires c.forwardNow hpos
      omega
  · rw [fire_full h]
    exact ⟨hi.length, hi.fires, hi.expected, hi.expires⟩

theorem expected_init (s : Start) : (rtDemoInit s).timerExpected = s.byCode + period := by
  have hpos := period_pos
  have hfirst := s.nonneg
  have hlater := s.later
  have hrange := s.range
  have hus : s.byCode + 1000 * 1000 = s.byCode + period := rfl
  show s64 (s.byCode + 1000 * 1000) = _
  rw [hus]
  exact s64_of_range (by omega) (by omega)

theorem inv_init (s : Start) : Inv (rtDemoInit s) := by
  have hpos := period_pos
  have hfirst := s.nonneg
  have hlater := s.later
  have hrange := s.range
  refine ⟨List.length_replicate, Nat.zero_le _, ?_, ?_⟩
  · rw [expected_init]
    exact ⟨by omega, by omega⟩
  · show 0 ≤ s.byTimer + period
    omega

/-! ## Runs -/

/-- The latencies as the driver takes them. -/
def measured : RtDemoData → List Callback → List Int
  | _, [] => []
  | d, c :: cs =>
    if d.timerFires < numSamples then (c.now - d.timerExpected) :: measured (fire d c) cs else []

theorem measured_full (h : ¬ d.timerFires < numSamples) (cs : List Callback) : measured d cs = [] := by
  cases cs with
  | nil => rfl
  | cons c cs => rw [measured, if_neg h]

theorem trueLatencies_full (h : ¬ d.timerFires < numSamples) (cs : List Callback) :
    trueLatencies d cs = [] := by
  cases cs with
  | nil => rfl
  | cons c cs => rw [trueLatencies, if_neg h]

theorem run_cons (d : RtDemoData) (c : Callback) (cs : List Callback) :
    run d (c :: cs) = run (fire d c) cs := rfl

theorem fires_run_full (h : ¬ d.timerFires < numSamples) : (run d cs).recorded = d.recorded := by
  induction cs generalizing d with
  | nil => rfl
  | cons c cs ih =>
    rw [run_cons, fire_full h]
    exact ih h

theorem fires_run (hi : Inv d) (ht : Timely d cs) :
    (run d cs).timerFires = d.timerFires + (measured d cs).length := by
  induction cs generalizing d with
  | nil => rfl
  | cons c cs ih =>
    obtain ⟨⟨-, hnow, hfwd, hmax⟩, hrest⟩ := ht
    have hnext := ih (hi.fire hnow hfwd hmax) hrest
    rw [run_cons, hnext]
    by_cases h : d.timerFires < numSamples
    · rw [fires_fire h, measured, if_pos h, List.length_cons]
      omega
    · have hfull : ¬ (fire d c).timerFires < numSamples := by
        rw [fire_full h]
        exact h
      rw [measured_full hfull, measured_full h, fire_full h]

theorem recorded_run (hi : Inv d) (ht : Timely d cs) :
    (run d cs).recorded = d.recorded ++ measured d cs := by
  induction cs generalizing d with
  | nil => exact (List.append_nil _).symm
  | cons c cs ih =>
    obtain ⟨⟨-, hnow, hfwd, hmax⟩, hrest⟩ := ht
    have hpos := period_pos
    have h0 := hi.expires
    by_cases h : d.timerFires < numSamples
    · rw [run_cons, ih (hi.fire hnow hfwd hmax) hrest, recorded_fire h hi (by omega) (by omega), measured,
        if_pos h, List.append_assoc]
      rfl
    · rw [measured_full h, fires_run_full h, List.append_nil]

/-- The timer and the driver agree on the next callback exactly if this one is on the grid. -/
theorem expected_eq_expires_iff (h : d.timerFires < numSamples) (h0 : 0 ≤ d.expires)
    (hnow : d.expires ≤ c.now) (hfwd : c.now ≤ c.forwardNow) (hmax : c.forwardNow + period ≤ s64Max) :
    (fire d c).timerExpected = (fire d c).expires ↔ OnGrid d c := by
  rw [expected_fire h (by omega) (by omega), expires_fire h, eq_comm]
  exact hrtimerForward_eq_add_iff period_pos hnow hfwd

theorem measured_eq_iff (hi : Inv d) (ht : Timely d cs) :
    measured d cs = trueLatencies d cs ↔
      (cs ≠ [] → d.timerFires < numSamples → d.timerExpected = d.expires) ∧ AllOnGrid d cs := by
  induction cs generalizing d with
  | nil => simp [measured, trueLatencies, AllOnGrid]
  | cons c cs ih =>
    obtain ⟨⟨-, hnow, hfwd, hmax⟩, hrest⟩ := ht
    have hnext := ih (hi.fire hnow hfwd hmax) hrest
    by_cases h : d.timerFires < numSamples
    · have hagree := expected_eq_expires_iff h hi.expires hnow hfwd hmax
      rw [fires_fire h] at hnext
      rw [measured, trueLatencies, if_pos h, if_pos h, List.cons.injEq, hnext, AllOnGrid]
      have hhead : c.now - d.timerExpected = c.now - d.expires ↔ d.timerExpected = d.expires := by omega
      simp only [hhead, hagree, ne_eq, reduceCtorEq, not_false_eq_true, true_implies, h]
    · have hfull : ¬ (fire d c).timerFires < numSamples := by
        rw [fire_full h]
        exact h
      rw [measured_full hfull, trueLatencies_full hfull] at hnext
      have hgrid := (hnext.mp rfl).2
      rw [measured_full h, trueLatencies_full h, AllOnGrid]
      refine iff_of_true rfl ⟨fun _ hlt => absurd hlt h, fun _ hlt => ?_, hgrid⟩
      exact absurd (Nat.lt_of_succ_lt hlt) h

theorem trueLatencies_nonneg (ht : Timely d cs) : ∀ l ∈ trueLatencies d cs, 0 ≤ l := by
  induction cs generalizing d with
  | nil => simp [trueLatencies]
  | cons c cs ih =>
    obtain ⟨⟨-, hnow, -⟩, hrest⟩ := ht
    intro l hl
    unfold trueLatencies at hl
    split at hl
    · rcases List.mem_cons.mp hl with rfl | hl
      · omega
      · exact ih hrest l hl
    · cases hl

/-- The measured latencies add up to less than the time that the clock can show. -/
theorem measured_sum_le (hi : Inv d) (ht : Timely d cs) :
    (measured d cs).sum ≤ s64Max - d.timerExpected := by
  have hexp := hi.expected
  induction cs generalizing d with
  | nil =>
    show 0 ≤ s64Max - d.timerExpected
    omega
  | cons c cs ih =>
    obtain ⟨⟨-, hnow, hfwd, hmax⟩, hrest⟩ := ht
    have hpos := period_pos
    have h0 := hi.expires
    unfold measured
    split
    · next h =>
      have hnext := hi.fire hnow hfwd hmax
      have hle := ih hnext hrest hnext.expected
      rw [expected_fire h (by omega) (by omega)] at hle
      rw [List.sum_cons]
      omega
    · show 0 ≤ s64Max - d.timerExpected
      omega

/-! ## The figures -/

theorem totals_foldl (ls : List Int) (t : Totals) :
    (ls.foldl Totals.add t).latMin = ls.foldl min t.latMin ∧
      (ls.foldl Totals.add t).latMax = ls.foldl max t.latMax ∧
      (ls.foldl Totals.add t).latSum = ls.foldl (fun a x => s64 (a + x)) t.latSum := by
  induction ls generalizing t with
  | nil => exact ⟨rfl, rfl, rfl⟩
  | cons l ls ih =>
    obtain ⟨hmin, hmax, hsum⟩ := ih (t.add l)
    have hless : (t.add l).latMin = min t.latMin l := by
      simp only [Totals.add]
      split <;> omega
    have hmore : (t.add l).latMax = max t.latMax l := by
      simp only [Totals.add]
      split <;> omega
    rw [hless] at hmin
    rw [hmore] at hmax
    exact ⟨hmin, hmax, hsum⟩

/-- What `proc_show` prints of latencies that are not negative and whose sum is in range. -/
theorem procShow_of {ls : List Int} (hrec : d.recorded = ls) (hlen : d.timerFires = ls.length)
    (hne : ls ≠ []) (h0 : ∀ l ∈ ls, 0 ≤ l) (hsum : ls.sum ≤ s64Max) :
    ∃ f, procShow d = some f ∧ f.Of ls := by
  have hle : ∀ l ∈ ls, l ≤ s64Max := fun l hl => (List.single_le_sum h0 l hl).trans hsum
  have hpos : ls.length ≠ 0 := fun hzero => hne (List.eq_nil_of_length_eq_zero hzero)
  obtain ⟨hmin, hmax, htotal⟩ := totals_foldl ls ⟨s64Max, 0, 0⟩
  have hnonneg := List.sum_nonneg h0
  have hwrap : ls.foldl (fun a x => s64 (a + x)) 0 = ls.sum := by
    have hzero : s64 0 = 0 := by decide
    have hfold := s64_foldl ls 0
    rw [hzero, Int.zero_add] at hfold
    rw [hfold]
    exact s64_of_range (by omega) hsum
  have hleast := List.min_mem hne
  have hgreatest := List.max_mem hne
  rw [List.foldl_min_eq_min hne, Int.min_eq_right (hle _ hleast)] at hmin
  rw [List.foldl_max_eq_max hne, Int.max_eq_right (h0 _ hgreatest)] at hmax
  rw [hwrap] at htotal
  refine ⟨_, by rw [procShow, hlen, if_neg hpos, hrec], ?_, ?_, ?_, ?_, ?_⟩
  · rw [hmin]
    exact hleast
  · intro l hl
    rw [hmin]
    exact List.min_le_of_mem hl
  · rw [hmax]
    exact hgreatest
  · intro l hl
    rw [hmax]
    exact List.le_max_of_mem hl
  · rw [htotal, Int.tdiv_eq_ediv_of_nonneg hnonneg]

/-- A sum has the same quotient after a growth that does not come to the next multiple. -/
theorem ediv_add_eq_iff {a delta n : Int} (hd : 0 ≤ delta) (hn : 0 < n) :
    (a + delta) / n = a / n ↔ a % n + delta < n := by
  have hsplit : (a + delta) / n = (a % n + delta) / n + a / n := by
    rw [← Int.add_mul_ediv_right _ _ (Int.ne_of_gt hn), Int.mul_comm]
    congr 1
    have hmod := Int.emod_add_mul_ediv a n
    omega
  have hrest : 0 ≤ a % n + delta := by
    have hmod := Int.emod_nonneg a (Int.ne_of_gt hn)
    omega
  constructor
  · intro h
    by_contra hge
    have hone : 1 ≤ (a % n + delta) / n := (Int.le_ediv_iff_mul_le hn).mpr (by omega)
    omega
  · intro h
    rw [hsplit, Int.ediv_eq_zero_of_lt hrest h, Int.zero_add]

/-- The figures of latencies of which the first is taken too large. -/
theorem figures_shift_iff {f : Figures} {l delta : Int} {ls : List Int} (hd : 0 ≤ delta)
    (h : f.Of ((l + delta) :: ls)) : f.Of (l :: ls) ↔ Hidden delta (l :: ls) := by
  have havg := h.avg
  rw [List.sum_cons, List.length_cons, Int.natCast_succ, Int.add_right_comm] at havg
  have hmin := h.min_le
  have hmax := h.le_max
  rw [List.forall_mem_cons] at hmin hmax
  constructor
  · intro ht
    have htavg := ht.avg
    rw [List.sum_cons, List.length_cons, Int.natCast_succ] at htavg
    refine ⟨?_, (ediv_add_eq_iff hd (by omega)).mp (havg.symm.trans htavg)⟩
    by_cases hzero : delta = 0
    · exact Or.inl hzero
    · right
      have hle := ht.min_le l List.mem_cons_self
      have hge := ht.le_max l List.mem_cons_self
      refine ⟨⟨f.min, ?_, hle⟩, ⟨f.max, ?_, hmax.1⟩⟩
      · refine List.mem_of_ne_of_mem ?_ h.min_mem
        omega
      · refine List.mem_of_ne_of_mem ?_ ht.max_mem
        omega
  · rintro ⟨hhid, hquot⟩
    rcases hhid with rfl | ⟨⟨x, hx, hxl⟩, ⟨y, hy, hly⟩⟩
    · rwa [Int.add_zero] at h
    · have hxmin := hmin.2 x hx
      have hymax := hmax.2 y hy
      refine ⟨?_, ?_, ?_, ?_, ?_⟩
      · refine List.mem_cons_of_mem _ ?_
        rcases List.mem_cons.mp h.min_mem with heq | hmem
        · have hxeq : x = f.min := by omega
          rwa [← hxeq]
        · exact hmem
      · rw [List.forall_mem_cons]
        exact ⟨by omega, hmin.2⟩
      · refine List.mem_cons_of_mem _ ?_
        rcases List.mem_cons.mp h.max_mem with heq | hmem
        · have hyeq : y = f.max := by omega
          rwa [← hyeq]
        · exact hmem
      · rw [List.forall_mem_cons]
        exact ⟨by omega, hmax.2⟩
      · rw [havg, List.sum_cons, List.length_cons, Int.natCast_succ]
        exact (ediv_add_eq_iff hd (by omega)).mpr hquot

/-! ## What is recorded and shown -/

theorem recorded_init (ht : Timely (rtDemoInit s) cs) :
    (run (rtDemoInit s) cs).recorded = measured (rtDemoInit s) cs ∧
      (run (rtDemoInit s) cs).timerFires = (measured (rtDemoInit s) cs).length := by
  refine ⟨?_, ?_⟩
  · rw [recorded_run (inv_init s) ht]
    rfl
  · rw [fires_run (inv_init s) ht]
    exact Nat.zero_add _

theorem fires_init (s : Start) : (rtDemoInit s).timerFires < numSamples := Nat.zero_lt_succ 99

/-- The first latency is taken from the first reading of the clock. -/
theorem measured_init (c : Callback) (cs : List Callback) :
    measured (rtDemoInit s) (c :: cs) =
      (c.now - (s.byTimer + period) + (s.byTimer - s.byCode)) :: measured (fire (rtDemoInit s) c) cs ∧
    trueLatencies (rtDemoInit s) (c :: cs) =
      (c.now - (s.byTimer + period)) :: trueLatencies (fire (rtDemoInit s) c) cs := by
  have h := fires_init s
  refine ⟨?_, ?_⟩
  · rw [measured, if_pos h, expected_init]
    congr 1
    omega
  · rw [trueLatencies, if_pos h]
    rfl

theorem tail_eq_iff {x y : Int} {ls ms : List Int} :
    (∀ i, 1 ≤ i → (x :: ls)[i]? = (y :: ms)[i]?) ↔ ls = ms := by
  constructor
  · intro h
    refine List.ext_getElem? fun i => ?_
    exact h (i + 1) (Nat.le_add_left 1 i)
  · rintro rfl i hi
    obtain ⟨j, rfl⟩ := Nat.exists_eq_add_of_le' hi
    rfl

/-- From the second callback on the recorded latencies are the true ones exactly if every callback that
another one follows is on the grid. -/
theorem exact_iff {c : Callback} (ht : Timely (rtDemoInit s) (c :: cs)) :
    measured (fire (rtDemoInit s) c) cs = trueLatencies (fire (rtDemoInit s) c) cs ↔
      AllOnGrid (rtDemoInit s) (c :: cs) := by
  obtain ⟨⟨-, hnow, hfwd, hmax⟩, hrest⟩ := ht
  have hi := inv_init s
  have h := fires_init s
  rw [measured_eq_iff (hi.fire hnow hfwd hmax) hrest, fires_fire h,
    expected_eq_expires_iff h hi.expires hnow hfwd hmax, AllOnGrid]

/-- The driver measures the latencies of a run and shows their figures if and only if every recorded
callback that another one follows is late by whole periods, and the time between the two readings of
the clock at the start is hidden from the figures. -/
theorem rt_measures_iff (s : Start) (cs : List Callback) (ht : Timely (rtDemoInit s) cs) :
    Measures s cs ↔ AllOnGrid (rtDemoInit s) cs ∧
      Hidden (s.byTimer - s.byCode) (trueLatencies (rtDemoInit s) cs) := by
  obtain ⟨hrec, hfires⟩ := recorded_init ht
  have hlater := s.later
  have hdelta : 0 ≤ s.byTimer - s.byCode := by omega
  cases cs with
  | nil =>
    refine iff_of_true ⟨fun _ _ => rfl, ?_, ?_⟩ ⟨trivial, trivial⟩
    · rw [hrec]
      simp [measured]
    · intro f hf
      cases hf
  | cons c cs =>
    obtain ⟨hm, htr⟩ := @measured_init s c cs
    have hnonneg := trueLatencies_nonneg ht
    have hsum := measured_sum_le (inv_init s) ht
    have hexp := (inv_init s).expected
    have hexact := exact_iff ht
    rw [htr] at hnonneg
    rw [hm] at hsum hrec hfires
    -- once the rest is exact, what is shown are the figures of latencies that are not negative
    have hshown : measured (fire (rtDemoInit s) c) cs = trueLatencies (fire (rtDemoInit s) c) cs →
        (∀ l ∈ (run (rtDemoInit s) (c :: cs)).recorded, 0 ≤ l) ∧
        ∃ f, procShow (run (rtDemoInit s) (c :: cs)) = some f ∧
          (f.Of (trueLatencies (rtDemoInit s) (c :: cs)) ↔
            Hidden (s.byTimer - s.byCode) (trueLatencies (rtDemoInit s) (c :: cs))) := by
      intro heq
      rw [heq] at hrec hfires hsum
      rw [List.forall_mem_cons] at hnonneg
      have h0 : ∀ l ∈ (c.now - (s.byTimer + period) + (s.byTimer - s.byCode)) ::
          trueLatencies (fire (rtDemoInit s) c) cs, 0 ≤ l := by
        rw [List.forall_mem_cons]
        exact ⟨by omega, hnonneg.2⟩
      obtain ⟨f, hf, hof⟩ := procShow_of hrec hfires (List.cons_ne_nil _ _) h0 (by omega)
      refine ⟨by rwa [hrec], f, hf, ?_⟩
      rw [htr]
      exact figures_shift_iff hdelta hof
    constructor
    · intro h
      have htail := h.exact
      rw [hrec, htr, tail_eq_iff] at htail
      obtain ⟨-, f, hf, hiff⟩ := hshown htail
      exact ⟨hexact.mp htail, hiff.mp (h.shown f hf)⟩
    · rintro ⟨hgrid, hhid⟩
      have htail := hexact.mpr hgrid
      obtain ⟨h0, f, hf, hiff⟩ := hshown htail
      refine ⟨?_, h0, ?_⟩
      · rw [hrec, htr, tail_eq_iff]
        exact htail
      · intro g hg
        rw [hf] at hg
        cases hg
        exact hiff.mpr hhid

/-- Both readings of the clock are 0. -/
def startAtZero : Start := ⟨0, 0, by decide, by decide, by decide⟩

theorem rt_measures_onTime : Measures startAtZero [⟨1000000, 1000000⟩, ⟨2000000, 2000000⟩] := by
  have ht : Timely (rtDemoInit startAtZero) [⟨1000000, 1000000⟩, ⟨2000000, 2000000⟩] :=
    ⟨⟨rfl, by decide, by decide, by decide⟩, ⟨rfl, by decide, by decide, by decide⟩, trivial⟩
  refine (rt_measures_iff startAtZero _ ht).mpr ⟨⟨fun _ _ => ⟨⟨0, by decide⟩, by decide⟩, ?_, trivial⟩,
    Or.inl rfl, by decide⟩
  exact fun hne => absurd rfl hne

/-- A callback that is late by 10 microseconds, and one after it that is on time. -/
def lateThenOnTime : List Callback := [⟨1010000, 1010000⟩, ⟨2000000, 2000000⟩]

/-- The latency of the second one is recorded as a negative number, and shown as the least one. -/
theorem lateThenOnTime_negative : Timely (rtDemoInit startAtZero) lateThenOnTime ∧
    trueLatencies (rtDemoInit startAtZero) lateThenOnTime = [10000, 0] ∧
    (run (rtDemoInit startAtZero) lateThenOnTime).recorded = [10000, -10000] ∧
    procShow (run (rtDemoInit startAtZero) lateThenOnTime) = some ⟨-10000, 10000, 0⟩ ∧
    ¬ Measures startAtZero lateThenOnTime := by
  have hrec : (run (rtDemoInit startAtZero) lateThenOnTime).recorded = [10000, -10000] := by decide
  refine ⟨⟨⟨rfl, by decide, by decide, by decide⟩, ⟨rfl, by decide, by decide, by decide⟩, trivial⟩,
    by decide, hrec, by decide, ?_⟩
  intro h
  have hneg := h.nonneg (-10000) (by rw [hrec]; decide)
  exact absurd hneg (by decide)

end RtDemo
